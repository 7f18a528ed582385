import OpenCmw.JsonProgress

/-!
# When reading JSON ends

The readers of the JSON protocol end with the memory. The loop over the
fields of a struct does not always: where a header is malformed and errors
are only reported, the description keeps what it said about the field
before, and that field is read again, up to the very position where the
header was malformed. Nothing else lets the loop stand still
(`next_forward`).

Where it never does, each round has consumed a character for what it
reported, so the reports are bounded by the size of the buffer.
-/

namespace OpenCmw.Io.Json

open Nat ByteReader
open Relation (TransGen)

variable {abi : Abi} {fuel : Nat} {m : Memory} {p q : Nat}

/-! ## What a round reports -/

section Reports

variable {check : ProtocolCheck} {info info' : DeserialiserInfo}

theorem handleUnlessIgnored_entries {e : ProtocolException}
    (h : handleUnlessIgnored check info e m p = .ok (info', q)) :
    p = q ∧ entries info' ≤ entries info + 1 := by
  unfold handleUnlessIgnored at h
  split_ifs at h with hignore
  · cases h
    exact ⟨rfl, le_succ _⟩
  · obtain ⟨-, hq, hadds, -⟩ := handleDeserialisationError_eq_ok h
    exact ⟨hq, hadds.2⟩

theorem markSet_entries {name : Bytes} {index : Nat}
    (h : markSet check name index info m p = .ok (info', q)) :
    p = q ∧ entries info' = entries info := by
  unfold markSet at h
  split_ifs at h with hignore
  · cases h
    exact ⟨rfl, rfl⟩
  · cases hfind : info.setFields.find? name with
    | none =>
      rw [hfind] at h
      cases h
    | some bits =>
      rw [hfind] at h
      dsimp only at h
      split_ifs at h with hidx
      · cases h
        exact ⟨rfl, rfl⟩
      · cases h

theorem initSetFields_entries (name : Bytes) (n : Nat) :
    entries (initSetFields check name n info) = entries info := by
  unfold initSetFields
  split_ifs with hignore
  · rfl
  · cases info.setFields.find? name <;> rfl

theorem noteField_entries (parentName : Bytes) (field : Field) :
    entries (noteField check parentName field info) ≤ entries info + 1 := by
  unfold noteField
  split_ifs with hignore
  · exact le_succ _
  · simp only [entries, List.length_append, List.length_singleton]
    omega

theorem checkTypeName_entries {typeName : Bytes} {field : Field}
    (h : checkTypeName check typeName info field m p = .ok (info', q)) :
    entries info' ≤ entries info + 1 := by
  unfold checkTypeName at h
  split_ifs at h with hname
  · exact (handleUnlessIgnored_entries h).2
  · cases h
    exact le_succ _

theorem checkBufferEnd_entries {α : Type} {R : StructReader α} {field : Field}
    (h : checkBufferEnd check R field info m p = .ok (info', q)) :
    p = q ∧ entries info' ≤ entries info + 1 := by
  rw [checkBufferEnd, position_bind, size_bind] at h
  split_ifs at h with hleft
  · exact handleUnlessIgnored_entries h
  · cases h
    exact ⟨rfl, le_succ _⟩

theorem skipToDataEnd_eq {f : Field} (hend : f.dataEndPosition = sizeMax) :
    skipToDataEnd check f info m p = .ok (info, p) := by
  rw [skipToDataEnd, position_bind, if_neg fun h => h.1 hend]
  rfl

/-- A plain member reads its data, or nothing if the type is another. -/
theorem readPlain_entries {P : SerialiserProtocol} {ctx : MemberContext} {name : Bytes}
    {requestedType : UInt8} {α : Type} {d : α} {read : Field → α → Get (α × Field)} {holder : Holder}
    {x y : Slot holder α} {f f' : Field} (hend : f.dataEndPosition = sizeMax)
    (h : readPlain P check ctx name requestedType d read x f info m p = .ok ((y, f', info'), q)) :
    entries info' ≤ entries info + 1 ∧
      ((requestedType ≠ f.intDataType ∧ requestedType ≠ P.otherId) ∧ f' = f ∧ q = p ∨
        ¬ (requestedType ≠ f.intDataType ∧ requestedType ≠ P.otherId) ∧
          ∃ a, read f (x.getOrCreate d) m p = .ok ((a, f'), q)) := by
  unfold readPlain at h
  split_ifs at h with htype
  · rw [moveToFieldEndBufferPosition, if_neg (not_not.mpr hend), pure_bind] at h
    obtain ⟨info₁, p₁, hreport, h⟩ := bind_ok_iff.mp h
    obtain ⟨rfl, hinfo⟩ := handleUnlessIgnored_entries hreport
    cases h
    exact ⟨hinfo, .inl ⟨htype, rfl, rfl⟩⟩
  · obtain ⟨⟨a, _⟩, p₁, ha, h⟩ := bind_ok_iff.mp h
    obtain ⟨info₁, _, hmark, h⟩ := bind_ok_iff.mp h
    obtain ⟨rfl, hinfo⟩ := markSet_entries hmark
    cases h
    exact ⟨by omega, .inr ⟨htype, a, ha⟩⟩

end Reports

/-! ## How far a field reaches -/

/-- The member has a loop of its own. -/
def IsNested : MemberKind → Prop
  | .nested _ _ _ _ => True
  | _ => False

/-- The field is read by a loop of its own. -/
def Nests (L : Loop) (f : Field) : Prop :=
  ∃ index, findMemberIndex L.members.names f.fieldName = some index ∧ IsNested (L.members.kindAt index)

/-- How far the data of a member reaches that has no loop of its own. -/
def memberExtent (abi : Abi) (fuel : Nat) (f : Field) : MemberKind → Get Unit
  | .leaf _ _ ty =>
    if typeId ty ≠ f.intDataType ∧ typeId ty ≠ otherId then pure ()
    else (fun _ => ()) <$> get fuel ty f ty.default
  | .structs _ _ n typeName inner =>
    (fun _ => ()) <$> readArray fuel n (inner.readElement (json abi fuel) fuel typeName)
  | _ => pure ()

def extent (abi : Abi) (fuel : Nat) (L : Loop) (f : Field) : Get Unit :=
  match findMemberIndex L.members.names f.fieldName with
  | none => skipData (json abi fuel) f
  | some index => memberExtent abi fuel f (L.members.kindAt index)

variable {check : ProtocolCheck} {info : DeserialiserInfo} {f : Field} {L : Loop}

theorem read_plain {info' : DeserialiserInfo} {ctx : MemberContext}
    {f' : Field} {k : MemberKind} (hplain : ¬ IsNested k) (hend : f.dataEndPosition = sizeMax)
    {x y : k.Val} (h : k.read (json abi fuel) fuel check ctx x f info m p = .ok ((y, f', info'), q)) :
    f' = f ∧ entries info' ≤ entries info + 1 ∧ memberExtent abi fuel f k m p = .ok ((), q) := by
  cases k with
  | none =>
    cases h
    exact ⟨rfl, le_succ _, rfl⟩
  | leaf name holder ty =>
    obtain ⟨hinfo, ⟨htype, rfl, rfl⟩ | ⟨htype, a, ha⟩⟩ := readPlain_entries hend h
    · refine ⟨rfl, hinfo, ?_⟩
      rw [memberExtent, if_pos (show typeId ty ≠ f'.intDataType ∧ typeId ty ≠ otherId from htype)]
      rfl
    · obtain ⟨v, hv, hpair⟩ := map_ok_iff.mp ha
      obtain ⟨_, hv'⟩ := get_replay fuel ty rfl hv ty.default
      refine ⟨(Prod.mk.inj hpair).2.symm, hinfo, ?_⟩
      rw [memberExtent, if_neg (show ¬ (typeId ty ≠ f.intDataType ∧ typeId ty ≠ otherId) from htype)]
      exact map_of_ok hv' _
  | structs name holder n typeName inner =>
    rw [MemberKind.read] at h
    obtain ⟨hinfo, ⟨htype, -⟩ | ⟨htype, a, ha⟩⟩ := readPlain_entries hend h
    · exact absurd rfl htype.2
    · obtain ⟨v, hv, hpair⟩ := map_ok_iff.mp ha
      exact ⟨(Prod.mk.inj hpair).2.symm, hinfo, map_of_ok hv _⟩
  | nested name holder typeName inner => exact absurd trivial hplain

/-- A field that is not read by a loop of its own leaves its description as
it is. -/
theorem follow_plain {value : L.members.Val} {i : Int} {s : LoopState L.members.Val} (hplain : ¬ Nests L f)
    (hend : f.dataEndPosition = sizeMax)
    (h : L.follow (json abi fuel) fuel value i info f m p = .ok (s, q)) :
    s.field = f ∧ entries s.info ≤ entries info + 2 ∧ extent abi fuel L f m p = .ok ((), q) := by
  unfold Loop.follow at h
  unfold extent
  cases hidx : findMemberIndex L.members.names f.fieldName with
  | none =>
    rw [hidx] at h
    obtain ⟨info₁, p₁, hskip, h⟩ := bind_ok_iff.mp h
    cases h
    rw [skipUnknownField_eq, position_bind, size_bind] at hskip
    obtain ⟨info₂, _, hreport, hskip⟩ := bind_ok_iff.mp hskip
    obtain ⟨rfl, hinfo₂⟩ := handleUnlessIgnored_entries hreport
    obtain ⟨_, _, hdata, hskip⟩ := bind_ok_iff.mp hskip
    cases hskip
    have hnote : entries (noteField L.check L.parentName f info₂) ≤ entries info₂ + 1 :=
      noteField_entries L.parentName f
    exact ⟨rfl, by dsimp only; omega, hdata⟩
  | some index =>
    rw [hidx] at h
    obtain ⟨⟨x, _, info₁⟩, p₁, hkind, hrest⟩ := bind_ok_iff.mp h
    obtain ⟨rfl, hinfo₁, hextent⟩ := read_plain (fun hnested => hplain ⟨index, hidx, hnested⟩) hend hkind
    dsimp only at hrest
    rw [bind_of_ok (skipToDataEnd_eq hend)] at hrest
    cases hrest
    exact ⟨rfl, by dsimp only; omega, hextent⟩

theorem kindAt_name {name : Identifier} {holder : Holder} {typeName : Bytes} {inner : Members} :
    ∀ {ms : Members} {index : Nat}, ms.kindAt index = .nested name holder typeName inner →
      ms.names[index]? = some (sanitizeFieldName name.bytes)
  | .nil, _, h => by cases h
  | .leaf _ _ _ _, 0, h => by cases h
  | .nested _ _ _ _ _, 0, h => by cases h; rfl
  | .structs _ _ _ _ _ _, 0, h => by cases h
  | .leaf _ _ _ rest, i + 1, h | .nested _ _ _ _ rest, i + 1, h
  | .structs _ _ _ _ _ rest, i + 1, h => @kindAt_name _ _ _ _ rest _ h

theorem findMemberIndex_getElem? {names : List Bytes} {name : Bytes} {index : Nat}
    (h : findMemberIndex names name = some index) : names[index]? = some name := by
  obtain ⟨hlt, hname, -⟩ := List.findIdx?_eq_some_iff_getElem.mp h
  rw [List.getElem?_eq_getElem hlt, eq_of_beq hname]

/-- A nested struct is read by a loop of its own, from where its header
began. -/
theorem read_nested {info' : DeserialiserInfo} {ctx : MemberContext}
    {f' : Field} {k : MemberKind} (hnested : IsNested k) {x y : k.Val}
    (h : k.read (json abi fuel) fuel check ctx x f info m p = .ok ((y, f', info'), q)) :
    ∃ c w info₂, k.Enters (json abi fuel) fuel m (itemCalls m) check x f info c ∧
      k.inner? = some c.1.members ∧
      iterate (c.1.step (json abi fuel) fuel) fuel c.2.1 m c.2.2 = .ok ((w, info₂), q) ∧
      entries info' = entries info₂ ∧
      f'.dataEndPosition = f.dataEndPosition ∧ f'.intDataType = startMarkerId ∧
      ∃ name holder typeName inner, k = .nested name holder typeName inner ∧
        f'.fieldName = sanitizeFieldName name.bytes := by
  cases k with
  | none => exact hnested.elim
  | leaf name holder ty => exact hnested.elim
  | structs name holder n typeName inner => exact hnested.elim
  | nested name holder typeName inner =>
    rw [MemberKind.read, readNested, setPosition_bind] at h
    obtain ⟨⟨a, info₂⟩, _, hstruct, h⟩ := bind_ok_iff.mp h
    rw [readStruct_eq_start] at hstruct
    obtain ⟨⟨info₁, field₁⟩, p₁, hstart, hfields⟩ := bind_ok_iff.mp hstruct
    rw [readFields_eq_iterate] at hfields
    obtain ⟨_, _, hmark, h⟩ := bind_ok_iff.mp h
    obtain ⟨rfl, hinfo₃⟩ := markSet_entries hmark
    cases h
    exact ⟨⟨⟨typeName, inner, check, sanitizeFieldName name.bytes⟩,
      ⟨x.getOrCreate inner.default, field₁, info₁⟩, p₁⟩, a, info₂, ⟨info₁, field₁, p₁, hstart, rfl⟩, rfl,
      hfields, hinfo₃, rfl, rfl, name, holder, typeName, inner, rfl, rfl⟩

theorem follow_nested {value : L.members.Val} {i : Int} {s : LoopState L.members.Val} (hnests : Nests L f)
    (hend : f.dataEndPosition = sizeMax)
    (h : L.follow (json abi fuel) fuel value i info f m p = .ok (s, q)) :
    (s.field.dataEndPosition = sizeMax ∧ s.field.intDataType = startMarkerId ∧ Nests L s.field) ∧
      ∃ index c w info₂, findMemberIndex L.members.names f.fieldName = some index ∧
        (L.members.kindAt index).Enters (json abi fuel) fuel m (itemCalls m) L.check
          (L.members.getAt index value) f info c ∧
        IsNested (L.members.kindAt index) ∧ (L.members.kindAt index).inner? = some c.1.members ∧
        iterate (c.1.step (json abi fuel) fuel) fuel c.2.1 m c.2.2 = .ok ((w, info₂), q) ∧
        entries s.info = entries info₂ := by
  obtain ⟨index, hidx, hnested⟩ := hnests
  rw [Loop.follow, hidx] at h
  obtain ⟨⟨x, f₁, _⟩, _, hkind, hrest⟩ := bind_ok_iff.mp h
  obtain ⟨c, w, info₂, henters, hinner, hloop, hinfo, hend₁, htype₁, _, holder, _, _, hmember,
    hname⟩ := read_nested hnested hkind
  rw [hend] at hend₁
  dsimp only at hrest
  rw [bind_of_ok (skipToDataEnd_eq hend₁)] at hrest
  cases hrest
  have hsame : f₁.fieldName = f.fieldName := by
    rw [hname]
    exact Option.some.inj ((kindAt_name hmember).symm.trans (findMemberIndex_getElem? hidx))
  refine ⟨⟨hend₁, htype₁, index, ?_, hnested⟩, index, c, w, info₂, hidx, henters, hnested, hinner, hloop,
    hinfo⟩
  rw [← hidx]
  exact congrArg _ hsame

/-! ## The loop goes forward -/

section Rounds

variable {L : Loop}

variable {f : Field} {check : ProtocolCheck} {typeName : Bytes} {info : DeserialiserInfo}
  {ms : Members} {value : ms.Val} {c : Config}

theorem extent_sameData {g : Field} (h : SameData f g) : extent abi fuel L f = extent abi fuel L g := by
  have hget : ∀ t : ValueTy, get fuel t f t.default = get fuel t g t.default := by
    intro t
    cases t with
    | scalar s => rfl
    | array n s => rfl
    | set s => rfl
    | multiArray s n => rw [get, get, objectField, objectField, h.hierarchyDepth]
    | map kind key value =>
      cases key with
      | string => rw [get, get, objectField, objectField, h.hierarchyDepth]
      | bool => rfl
      | int w => rfl
  unfold extent
  rw [h.fieldName]
  cases findMemberIndex L.members.names g.fieldName with
  | none =>
    unfold skipData moveToFieldEndBufferPosition
    rw [h.dataEndPosition, h.intDataType, h.dataStartPosition]
    rfl
  | some index =>
    dsimp only
    cases L.members.kindAt index with
    | leaf name holder ty => rw [memberExtent, memberExtent, h.intDataType, hget]
    | nested name holder typeName inner => rfl
    | structs name holder n typeName inner => rfl
    | none => rfl

/-- The elements of the arrays of structs go forward. -/
def ElementsForward (abi : Abi) (fuel : Nat) (m : Memory) (ms : Members) : Prop :=
  ∀ index inner, (ms.kindAt index).inner? = some inner →
    ∀ typeName, Forward (inner.readElement (json abi fuel) fuel typeName) m

theorem extent_le (helts : ElementsForward abi fuel m L.members) (hf : Fresh m 0 f)
    (h : extent abi fuel L f m f.dataStartPosition = .ok ((), q)) : f.dataStartPosition ≤ q := by
  unfold extent at h
  cases hidx : findMemberIndex L.members.names f.fieldName with
  | none =>
    rw [hidx] at h
    unfold skipData at h
    rw [if_neg (not_not.mpr hf.dataEnd)] at h
    have hskip : (json abi fuel).skipOther = some fun _ => skipValue fuel fuel := rfl
    rw [hskip] at h
    dsimp only at h
    split_ifs at h with hstart
    · -- one character back, at the brace
      have hpos := hf.lt
      rw [setPosition_bind, show ((f.dataStartPosition : Int) - 1) =
        ((f.dataStartPosition - 1 : Nat) : Int) by omega, toSize_natCast] at h
      have hlt := skipValue_brace (hf.brace hstart) h
      omega
    · exact (moves_skipValue (fun _ => trivial) fun _ => trivial).forward h
  | some index =>
    rw [hidx] at h
    dsimp only at h
    cases hmember : L.members.kindAt index with
    | leaf name holder ty =>
      rw [hmember, memberExtent] at h
      split_ifs at h with htype
      · exact (pure_eq_ok.mp h).2.le
      · exact ((moves_get (fun _ => trivial) ty f ty.default _).map _).forward h
    | nested name holder typeName inner =>
      rw [hmember] at h
      exact (pure_eq_ok.mp h).2.le
    | structs name holder n typeName inner =>
      rw [hmember, memberExtent] at h
      have helement := helts index inner (by rw [hmember]; rfl) typeName
      exact ((moves_readArray (fun _ => trivial)
        (fun _ _ => ⟨helement _ _ _, fun _ => trivial⟩) n).map _).forward h
    | none =>
      rw [hmember] at h
      exact (pure_eq_ok.mp h).2.le

/-- What holds in every state of a loop that has not come to the end of the
buffer: the field read last, if it is read once more, does not lead back. -/
structure Standing (abi : Abi) (fuel : Nat) (m : Memory) (L : Loop) (x : L.State) : Prop where
  dataEnd : x.1.field.dataEndPosition = sizeMax
  stop : x.1.field.intDataType = endMarkerId → x.2 ≤ x.1.field.dataStartPosition
  again : Nests L x.1.field ∨ Fresh m 0 x.1.field ∧ ∀ q,
    extent abi fuel L x.1.field m x.1.field.dataStartPosition = .ok ((), q) → x.2 ≤ q

/-- Where a struct begins. -/
theorem startStruct_lt {n : Nat} {parent field : Field} {info' : DeserialiserInfo}
    (h : startStruct (json abi fuel) check typeName n parent info m p = .ok ((info', field), q)) :
    p < q ∧ q ≤ m.size ∧ q = field.dataStartPosition ∧ entries info' ≤ entries info + 3 ∧
      (q < m.size → Fresh m 0 field) := by
  unfold startStruct at h
  rw [size_bind] at h
  obtain ⟨⟨_, field₁⟩, _, hhdr, h⟩ := bind_ok_iff.mp h
  obtain ⟨H, hfield₁, hinfo₁, -⟩ := getHeader_eq_ok hhdr
  obtain ⟨info₂, _, hname, h⟩ := bind_ok_iff.mp h
  have hinfo₂ := checkTypeName_entries hname
  obtain ⟨_, _, hstart, h⟩ := bind_ok_iff.mp h
  obtain ⟨rfl, rfl⟩ := pure_eq_ok.mp hstart
  rw [setPosition_bind] at h
  obtain ⟨hres, rfl⟩ := pure_eq_ok.mp h
  obtain ⟨rfl, rfl⟩ := Prod.mk.inj hres
  have hents : entries info₂ ≤ entries info + 3 := by
    have hinfo₁ := hinfo₁.2
    rw [initSetFields_entries] at hinfo₁
    omega
  have hp := H.lt_size
  rcases H.fresh with hfresh | hid
  · have hfresh := hfield₁ ▸ hfresh _
    refine ⟨hfresh.lt, hfresh.le_size, rfl, hents, fun _ => ?_⟩
    exact ⟨(zero_le p).trans_lt hfresh.lt, hfresh.le_size, hfresh.dataEnd, hfresh.brace⟩
  · rw [hid] at hfield₁
    have hsize : field₁.dataStartPosition = m.size := by rw [hfield₁]; rfl
    exact ⟨by omega, by omega, rfl, hents, fun hlt => absurd hsize hlt.ne⟩

/-- A loop begins behind the header of its struct. -/
structure Begins (abi : Abi) (fuel : Nat) (m : Memory) (p : Nat) (info : DeserialiserInfo) (c : Config) :
    Prop where
  lt : p < c.2.2
  le_size : c.2.2 ≤ m.size
  entries_le : entries c.2.1.info ≤ entries info + 3
  standing : c.2.2 < m.size → Standing abi fuel m c.1 c.2

theorem begins_of_structBegins {parent : Field} (helts : ElementsForward abi fuel m ms)
    (h : StructBegins (json abi fuel) m check typeName ms parent value info p c) :
    Begins abi fuel m p info c := by
  obtain ⟨_, _, q, hstart, rfl⟩ := h
  obtain ⟨hlt, hsize, rfl, hents, hfresh⟩ := startStruct_lt hstart
  refine ⟨hlt, hsize, hents, fun hp => ?_⟩
  have hfresh := hfresh hp
  exact ⟨hfresh.dataEnd, fun _ => le_rfl, .inr ⟨hfresh, fun q hq => extent_le helts hfresh hq⟩⟩

theorem begins_of_rootBegins (helts : ElementsForward abi fuel m ms)
    (h : RootBegins (json abi fuel) m check typeName ms value p c) : Begins abi fuel m p {} c := by
  obtain ⟨_, q, hinfo, -, hbegins⟩ := h
  cases hinfo
  exact begins_of_structBegins helts hbegins

theorem rootBegins_of_readRoot {w : ms.Val}
    (h : readRoot (json abi fuel) check (ms.reader (json abi fuel) fuel check typeName) fuel value m p =
      .ok ((w, info), q)) :
    ∃ L s p', RootBegins (json abi fuel) m check typeName ms value p ⟨L, s, p'⟩ ∧ L.members = ms ∧
      ∃ w', iterate (L.step (json abi fuel) fuel) fuel s m p' = .ok ((w', info), q) := by
  obtain ⟨_, _, hinfo, h⟩ := bind_ok_iff.mp h
  cases hinfo
  rw [if_neg fun h => h.2 rfl, size_bind, readStruct_eq_start] at h
  obtain ⟨⟨info₂, field⟩, p₂, hstart, hfields⟩ := bind_ok_iff.mp h
  rw [readFields_eq_iterate] at hfields
  exact ⟨⟨typeName, ms, check, rootName⟩, ⟨value, field, info₂⟩, p₂,
    ⟨{}, p, rfl, fun h => h.2 rfl, info₂, field, p₂, hstart, rfl⟩, rfl, w, hfields⟩

/-- The loops that a member starts. -/
theorem begins_of_enters {k : MemberKind} {x : k.Val}
    (helts : ∀ inner, k.inner? = some inner → ElementsForward abi fuel m inner)
    (h : k.Enters (json abi fuel) fuel m (itemCalls m) check x f info c) :
    ∃ q info', Begins abi fuel m q info' c ∧ (IsNested k → q = f.headerStart ∧ info' = info) := by
  cases k with
  | none => exact h.elim
  | leaf name holder ty => exact h.elim
  | nested name holder typeName inner =>
    exact ⟨_, _, begins_of_structBegins (helts inner rfl) h, fun _ => ⟨rfl, rfl⟩⟩
  | structs name holder n typeName inner =>
    obtain ⟨-, q, -, hbegins⟩ := h
    exact ⟨q, {}, begins_of_rootBegins (helts inner rfl) hbegins, False.elim⟩

/-- A round goes forward, or it has read once more what it read last and
stands where it stood. A nested struct takes its header at least. -/
theorem next_cases (helts : ElementsForward abi fuel m L.members)
    (hinner : ∀ index inner, (L.members.kindAt index).inner? = some inner →
      ElementsForward abi fuel m inner) {x y : L.State} (hx : Standing abi fuel m L x)
    (hnext : Next (L.step (json abi fuel) fuel) m x y) : Standing abi fuel m L y ∧
      ((x.2 < y.2 ∨ x.2 ≤ y.2 ∧ SameData x.1.field y.1.field) ∧
          entries y.1.info ≤ entries x.1.info + 4 ∨
        ∃ index c w info, Enters (json abi fuel) fuel m (itemCalls m) ⟨L, x⟩ c ∧
          (L.members.kindAt index).inner? = some c.1.members ∧
          ∃ p info₁, x.2 ≤ p ∧ entries info₁ ≤ entries x.1.info + 2 ∧ Begins abi fuel m p info₁ c ∧
          iterate (c.1.step (json abi fuel) fuel) fuel c.2.1 m c.2.2 = .ok ((w, info), y.2) ∧
          entries y.1.info = entries info) := by
  obtain ⟨hp, info₁, f₁, q, hhdr, htype, hfollow⟩ := next_iff.mp hnext
  obtain ⟨H, hf₁, hinfo₁, -⟩ := getHeader_eq_ok hhdr
  have hend : f₁.dataEndPosition = sizeMax := by
    rcases H.fresh with hfresh | hid
    · rw [hf₁]
      exact (hfresh _).dataEnd
    · rw [hf₁, hid]
      exact hx.dataEnd
  by_cases hnests : Nests L f₁
  · obtain ⟨⟨hend', htype', hnests'⟩, index, c, w, info₂, hidx, henters, hnested, hmembers, hloop, hinfo₂⟩ :=
      follow_nested hnests hend hfollow
    refine ⟨⟨hend', fun h => ?_, .inl hnests'⟩, .inr ⟨index, c, w, info₂, ?_, hmembers, f₁.headerStart, info₁,
      ?_, hinfo₁.2, ?_, hloop, hinfo₂⟩⟩
    · rw [htype'] at h
      exact absurd h (by decide)
    · exact ⟨hp, info₁, f₁, q, index, hhdr, htype, hidx, henters⟩
    · rw [hf₁, H.headerStart_describe]
      exact H.le_headerStart
    · obtain ⟨_, _, hbegins, hwhere⟩ := begins_of_enters (hinner index) henters
      obtain ⟨rfl, rfl⟩ := hwhere hnested
      exact hbegins
  · obtain ⟨hfield, hinfo₂, hextent⟩ := follow_plain hnests hend hfollow
    have hents : entries y.1.info ≤ entries x.1.info + 4 := by
      have := hinfo₁.2
      omega
    -- read once more, the field ends where it has ended now
    have hagain : ∀ q, extent abi fuel L f₁ m f₁.dataStartPosition = .ok ((), q) → y.2 ≤ q := by
      intro q hq
      exact (Prod.mk.inj (Except.ok.inj (hextent.symm.trans hq))).2.le
    have hstanding : Fresh m 0 f₁ → Standing abi fuel m L y := by
      intro hfresh
      refine ⟨by rw [hfield]; exact hend, fun h => ?_, .inr ⟨by rw [hfield]; exact hfresh, ?_⟩⟩
      · rw [hfield] at h
        exact absurd h htype
      · rw [hfield]
        exact hagain
    rcases H.fresh with hfresh | hid
    · have hfresh := hf₁ ▸ hfresh _
      have hfresh₀ : Fresh m 0 f₁ :=
        ⟨(zero_le _).trans_lt hfresh.lt, hfresh.le_size, hfresh.dataEnd, hfresh.brace⟩
      have hle := extent_le helts hfresh₀ hextent
      exact ⟨hstanding hfresh₀, .inl ⟨.inl (hfresh.lt.trans_le hle), hents⟩⟩
    · rw [hid] at hf₁
      have hsame : SameData x.1.field f₁ := by
        rw [hf₁]
        exact ⟨rfl, rfl, rfl, rfl, rfl⟩
      rcases hx.again with hnests' | ⟨hfresh, hle⟩
      · refine absurd ?_ hnests
        obtain ⟨index, hidx, hnested⟩ := hnests'
        exact ⟨index, hsame.fieldName ▸ hidx, hnested⟩
      · have hfresh₀ : Fresh m 0 f₁ := ⟨hsame.dataStartPosition ▸ hfresh.lt,
          hsame.dataStartPosition ▸ hfresh.le_size, hsame.dataEndPosition ▸ hfresh.dataEnd,
          hsame.dataStartPosition ▸ hsame.intDataType ▸ hfresh.brace⟩
        rw [extent_sameData hsame, hsame.dataStartPosition] at hle
        exact ⟨hstanding hfresh₀, .inl ⟨.inr ⟨hle _ hextent, hfield ▸ hsame⟩, hents⟩⟩

/-- The last round. -/
theorem stop_forward {s : LoopState L.members.Val} {w : L.members.Val}
    (hx : p < m.size → Standing abi fuel m L (s, p))
    (h : L.step (json abi fuel) fuel s m p = .ok (.inr (w, info), q)) :
    p ≤ q ∧ entries info ≤ entries s.info + 2 := by
  rcases Loop.step_eq_ok.mp h with ⟨hp, info₁, _, _, hhdr, ⟨htype, ho, rfl⟩ | ⟨-, _, ho, -⟩⟩ |
    ⟨-, info₁, ho, hreport⟩
  · cases ho
    obtain ⟨H, hf₁, hinfo, -⟩ := getHeader_eq_ok hhdr
    refine ⟨?_, hinfo.2⟩
    rcases H.fresh with hfresh | hid
    · rw [hf₁]
      exact (hfresh _).lt.le
    · rw [hid] at hf₁
      rw [hf₁] at htype ⊢
      exact (hx hp).stop htype
  · cases ho
  · cases ho
    obtain ⟨rfl, hinfo⟩ := checkBufferEnd_entries hreport
    exact ⟨le_rfl, by omega⟩

end Rounds

/-- What is known of all structs with these members. -/
structure Progresses (abi : Abi) (fuel : Nat) (m : Memory) (ms : Members) : Prop where
  elements : ElementsForward abi fuel m ms
  loop : ∀ c : Config, c.1.members = ms → (c.2.2 < m.size → Standing abi fuel m c.1 c.2) →
    ∀ rounds w info q, iterate (c.1.step (json abi fuel) fuel) rounds c.2.1 m c.2.2 =
      .ok ((w, info), q) → c.2.2 ≤ q

/-- By induction on the members: a loop goes forward because those it starts
do. -/
theorem progresses (ms : Members) : Progresses abi fuel m ms := by
  induction hn : sizeOf ms using Nat.strong_induction_on generalizing ms with
  | h n ih =>
    have hinner : ∀ index inner, (ms.kindAt index).inner? = some inner →
        Progresses abi fuel m inner := fun index inner hmember =>
      ih _ (hn ▸ Members.sizeOf_inner ms hmember) inner rfl
    have helts : ElementsForward abi fuel m ms := by
      intro index inner hmember typeName p w q h
      obtain ⟨⟨w, info⟩, hroot, -⟩ := map_ok_iff.mp h
      obtain ⟨L, s, p', hbegins, hmembers, w', hloop⟩ := rootBegins_of_readRoot hroot
      have hbegins := begins_of_rootBegins (hinner index inner hmember).elements hbegins
      have hle := (hinner index inner hmember).loop ⟨L, s, p'⟩ hmembers hbegins.standing _ _ _ _ hloop
      exact hbegins.lt.le.trans hle
    refine ⟨helts, ?_⟩
    rintro ⟨L, s, p⟩ hmembers hx rounds
    dsimp only at hmembers hx ⊢
    subst hmembers
    induction rounds generalizing s p with
    | zero =>
      intro w info q h
      cases h
    | succ rounds ihrounds =>
      intro w info q h
      obtain ⟨_, hrnds, hrnd⟩ := iterate_eq_ok h
      obtain rfl := succ.inj hrnds
      rcases hrnd with hlast | ⟨s', p', hnext, hrest⟩
      · exact (stop_forward hx hlast).1
      · have hp := (next_iff.mp hnext).1
        obtain ⟨hstanding, hcases⟩ := next_cases helts
          (fun index inner hmember => (hinner index inner hmember).elements) (hx hp) hnext
        have hle := ihrounds s' p' (fun _ => hstanding) w info q hrest
        rcases hcases with ⟨hlt | ⟨hle', -⟩, -⟩ | ⟨index, c, w', _, -, hmembers, _, _, hp₁,
          -, hbegins, hloop, -⟩
        · exact hlt.le.trans hle
        · exact hle'.trans hle
        · have hle' := (hinner index _ hmembers).loop c rfl hbegins.standing _ _ _ _ hloop
          have hlt := hbegins.lt
          omega

/-- All loops of a run stand firm. -/
theorem standing_of_reached {c c' : Config} (h : Reached (json abi fuel) fuel m (itemCalls m) c c')
    (hc : c.2.2 < m.size → Standing abi fuel m c.1 c.2) :
    c'.2.2 < m.size → Standing abi fuel m c'.1 c'.2 := by
  induction h with
  | refl => exact hc
  | next _ hnext ih =>
    intro _
    exact (next_cases (progresses _).elements (fun _ inner _ => (progresses inner).elements)
      (ih (next_iff.mp hnext).1) hnext).1
  | enter _ henters ih =>
    obtain ⟨-, _, _, _, _, -, -, -, henters⟩ := henters
    obtain ⟨_, _, hbegins, -⟩ := begins_of_enters (fun inner _ => (progresses inner).elements) henters
    exact hbegins.standing

/-- A round that does not go forward reads once more what was read last. -/
theorem next_forward {x y : L.State} (hx : Standing abi fuel m L x)
    (hnext : Next (L.step (json abi fuel) fuel) m x y) :
    Standing abi fuel m L y ∧ (x.2 < y.2 ∨ x.2 ≤ y.2 ∧ SameData x.1.field y.1.field) := by
  obtain ⟨hstanding, hcases⟩ := next_cases (progresses L.members).elements
    (fun _ inner _ => (progresses inner).elements) hx hnext
  refine ⟨hstanding, ?_⟩
  rcases hcases with ⟨hforward, -⟩ | ⟨_, c, w, _, -, -, _, _, hp₁, -, hbegins, hloop, -⟩
  · exact hforward
  · have hle := (progresses c.1.members).loop c rfl hbegins.standing _ _ _ _ hloop
    exact .inl (hp₁.trans_lt (hbegins.lt.trans_le hle))

theorem SameData.trans {g h : Field} (hfg : SameData f g) (hgh : SameData g h) : SameData f h :=
  ⟨hfg.dataStartPosition.trans hgh.dataStartPosition, hfg.dataEndPosition.trans hgh.dataEndPosition,
    hfg.fieldName.trans hgh.fieldName, hfg.intDataType.trans hgh.intDataType,
    hfg.hierarchyDepth.trans hgh.hierarchyDepth⟩

/-- A loop that comes back has read the same field all the time. -/
theorem rounds_forward {x y : L.State} (hx : Standing abi fuel m L x)
    (h : TransGen (Next (L.step (json abi fuel) fuel) m) x y) :
    Standing abi fuel m L y ∧ (x.2 < y.2 ∨ x.2 ≤ y.2 ∧ SameData x.1.field y.1.field) := by
  induction h with
  | single hnext => exact next_forward hx hnext
  | tail _ hnext ih =>
    obtain ⟨hstanding, hforward⟩ := ih
    obtain ⟨hstanding', hforward'⟩ := next_forward hstanding hnext
    refine ⟨hstanding', ?_⟩
    rcases hforward with hlt | ⟨hle, hsame⟩
    · rcases hforward' with hlt' | ⟨hle', -⟩
      · exact .inl (hlt.trans hlt')
      · exact .inl (hlt.trans_le hle')
    · rcases hforward' with hlt' | ⟨hle', hsame'⟩
      · exact .inl (hle.trans_lt hlt')
      · exact .inr ⟨hle.trans hle', hsame.trans hsame'⟩

/-! ## When reading ends -/

theorem ending {limit : Nat} (hlimit : EndsAt m limit) (hfuel : limit < fuel) :
    Ending (json abi fuel) fuel m (itemCalls m) where
  checkHeaderInfo _ info _ := ends_pure info
  getHeader check info field _ := ends_getHeader check info field
  getStart field _ := ends_pure field
  getLeaf t field old p := ((moves_get (not_spent hlimit hfuel) t field old p).map _).ends not_false
  getStructs n _ _ _ _ _ hitem :=
    (moves_readArray (not_spent hlimit hfuel)
      (fun q hq => ⟨(hitem q hq).2 _ _, (hitem q hq).1⟩) n).ends not_false
  skipOther skip h field p := by
    cases h
    exact (moves_skipValue (not_spent hlimit hfuel) fun h => not_spent hlimit hfuel h.start).ends not_false
  element {typeName inner p q a q'} _ h := by
    obtain ⟨⟨w, info⟩, hroot, -⟩ := map_ok_iff.mp h
    obtain ⟨L, s, p', hbegins, hmembers, _, hloop⟩ := rootBegins_of_readRoot hroot
    have hbegins := begins_of_rootBegins (progresses inner).elements hbegins
    have hle := (progresses inner).loop ⟨L, s, p'⟩ hmembers hbegins.standing _ _ _ _ hloop
    exact hbegins.lt.le.trans hle

/-- If no loop comes back, every round has consumed a character for what it
reported: eight entries a character are enough for a header, a field and
the loop of a nested struct around its own fields. -/
theorem loop_entries (c : Config) (hreturn : NoReturn (json abi fuel) fuel m (itemCalls m) c)
    (hc : c.2.2 < m.size → Standing abi fuel m c.1 c.2) {rounds : Nat} {w : c.1.members.Val}
    (h : iterate (c.1.step (json abi fuel) fuel) rounds c.2.1 m c.2.2 = .ok ((w, info), q)) :
    entries info + 8 * min c.2.2 m.size ≤ entries c.2.1.info + 8 * min q m.size + 2 := by
  induction hn : sizeOf c.1.members using Nat.strong_induction_on generalizing c rounds w info q with
  | h n ih =>
    obtain ⟨L, s, p⟩ := c
    dsimp only at *
    induction rounds generalizing s p with
    | zero => cases h
    | succ rounds ihrounds =>
      obtain ⟨_, hrnds, hrnd⟩ := iterate_eq_ok h
      obtain rfl := succ.inj hrnds
      rcases hrnd with hlast | ⟨s', p', hnext, hrest⟩
      · have hstop := stop_forward hc hlast
        omega
      · have hp := (next_iff.mp hnext).1
        obtain ⟨hstanding, hcases⟩ := next_cases (progresses L.members).elements
          (fun _ inner _ => (progresses inner).elements) (hc hp) hnext
        have hne := hreturn L (s, p) (s', p') .refl (.single hnext)
        have hforward := (next_forward (hc hp) hnext).2
        have hrest := ihrounds s' p' (hreturn.of_reached (.next .refl hnext)) (fun _ => hstanding) hrest
        rcases hcases with ⟨-, hents⟩ | ⟨_, c, _, _, henters, hmembers, _, _, hp₁, hinfo₁,
          hbegins, hloop, hents⟩
        · dsimp only at hp hne hforward hents
          omega
        · have hinner := ih _ (hn ▸ Members.sizeOf_inner L.members hmembers) c
            (hreturn.of_reached (.enter .refl henters)) hbegins.standing hloop rfl
          have hlt := hbegins.lt
          have hinfo := hbegins.entries_le
          dsimp only at hp hne hforward hents hp₁ hinfo₁
          omega

/-- The entries in the result are at most eight for each byte. -/
def ReportsBounded (abi : Abi) (check : ProtocolCheck) (T : StructTy) (value : T.members.Val)
    (m : Memory) : Prop :=
  ∃ n, ∀ fuel, n ≤ fuel → ∀ w info q, deserialise (json abi fuel) check fuel T value m 0 =
    .ok ((w, info), q) → entries info ≤ 8 * m.size

theorem deserialise_entries {T : StructTy} {value w : T.members.Val}
    (hreturn : NoLoopReturns (json abi fuel) fuel m (itemCalls m) check T value)
    (h : deserialise (json abi fuel) check fuel T value m 0 = .ok ((w, info), q)) :
    entries info ≤ 8 * m.size := by
  obtain ⟨L, s, p, hroot, -, _, hloop⟩ := rootBegins_of_readRoot h
  have hbegins := begins_of_rootBegins (progresses T.members).elements hroot
  have hle := loop_entries ⟨L, s, p⟩ (hreturn _ hroot) hbegins.standing hloop
  have hlt := hbegins.lt
  have hsize := hbegins.le_size
  have hinfo := hbegins.entries_le
  have hemp : entries {} = 0 := rfl
  omega

/-- Nothing can be read behind the buffer. -/
theorem endsAt_size (data : Bytes) : EndsAt ⟨data, fun _ => none⟩ data.length := by
  intro i hi
  rw [Memory.byteAt, List.getElem?_eq_none hi]

/-- A struct with one member. -/
def counter : StructTy where
  typeName := str "Counter"
  members := .leaf ⟨str "a", isIdentifier_a⟩ .direct (.scalar (.int .w32)) .nil

/-- A semicolon behind the number. -/
def misspelt : Memory := ⟨str "\x7b\x22a\x22: 1;\x7d", fun _ => none⟩

def counterLoop : Loop := ⟨counter.typeName, counter.members, .lenient, rootName⟩

def counterField (headerStart dataStart : Nat) (name : Bytes) (id : UInt8) : Field where
  headerStart := headerStart
  dataStartPosition := dataStart
  dataEndPosition := sizeMax
  subfields := -1
  fieldName := name
  intDataType := id
  hierarchyDepth := 0

/-- The loop at its start, at the semicolon, and there again. -/
def counterStart : counterLoop.State :=
  (⟨counter.members.default, counterField 0 1 [] startMarkerId,
    { setFields := SortedMap.ofEntries [(rootName, [false])] }⟩, 1)

def counterRead (headerStart : Nat) (exceptions : List ProtocolException) : counterLoop.State :=
  (⟨(⟨1, by decide⟩, ()), counterField headerStart 6 (str "a") otherId,
    { setFields := SortedMap.ofEntries [(rootName, [true])], exceptions := exceptions }⟩, 7)

/-- The member is a number, which is read without a loop. -/
theorem counterLoop_follow (fuel headerStart : Nat) (value : counterLoop.members.Val) (i : Int)
    (info : DeserialiserInfo) :
    counterLoop.follow (json sortedAbi fuel) fuel value i info
        (counterField headerStart 6 (str "a") otherId) =
      counterLoop.follow (json sortedAbi 0) 0 value i info
        (counterField headerStart 6 (str "a") otherId) := by
  have hidx : findMemberIndex counterLoop.members.names
      (counterField headerStart 6 (str "a") otherId).fieldName = some 0 := by
    show findMemberIndex counterLoop.members.names (str "a") = some 0
    decide
  rw [Loop.follow, Loop.follow, hidx]
  rfl

end OpenCmw.Io.Json
