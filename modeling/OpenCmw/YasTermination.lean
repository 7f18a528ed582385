import OpenCmw.StructLoops
import OpenCmw.YasSerialiser

/-!
# When reading YaS ends

The header of a YaS field says where its data begins, counted from the
header, and how long it is. Both are signed, so the data may end at or
before the header that announces it, and the loop over the fields goes
back there. This is all that can keep the reader from ending: everything
else it does is bounded by the counts it reads.
-/

namespace OpenCmw.Io.Yas

open Prod (mk)
open ByteReader
open Relation (TransGen)

variable {abi : Abi} {m : Memory} {p q : Nat}

/-! ## The readers of the protocol end -/

theorem ends_getInt (k : Nat) : Ends (getInt k : Get Int) m p := (ends_take k).map _

theorem ends_getString : Ends getString m p := by
  exact (ends_getInt 4).bind fun _ _ _ => ends_bind_ok rfl <|
    (ends_take _).bind fun _ _ _ => ends_bind_ok rfl <| ends_pure _

theorem ends_getScalar : (s : Scalar) → Ends (getScalar s) m p
  | .bool => (ends_take 1).map _
  | .int w => (ends_getInt w.size).map _
  | .string => ends_getString

theorem ends_getArray (s : Scalar) (requestedSize : Nat) : Ends (getArray s requestedSize) m p := by
  exact (ends_getInt 4).bind fun _ _ _ => ends_bind_ok rfl <| ends_bind_ok rfl <|
    ends_times (fun _ => ends_getScalar s) _

theorem ends_getArrayInto {s : Scalar} {n : Option Nat} {requestedSize : Nat} {old : Seq n s.Val} :
    Ends (getArrayInto s n requestedSize old) m p := by
  refine (ends_getArray s requestedSize).bind fun vs _ _ => ?_
  cases old.fill vs with
  | none => exact ends_fail nofun
  | some v => exact ends_pure v

theorem ends_getMultiArray {s : Scalar} {n : Nat} : Ends (Io.getMultiArray s n) m p := by
  exact ends_getArrayInto.bind fun _ _ _ => (ends_getArray s sizeMax).bind fun _ _ _ =>
    ends_pure _

theorem ends_getCount : Ends getCount m p := (ends_getInt 4).map _

theorem ends_getEntries {K V : Type} [LinearOrder K] {r : Nat → Get V} (h : ∀ i p, Ends (r i) m p) :
    ∀ {n i p : Nat} {keys : List K} {old : SortedMap K V}, Ends (getEntries r i n keys old) m p
  | 0, _, _, _, _ => ends_pure _
  | n + 1, i, p, keys, old => by
    rw [getEntries]
    refine (h i p).bind fun v q _ => ?_
    cases keys with
    | nil => exact ends_fail nofun
    | cons k keys => exact ends_getEntries h

theorem ends_get : (t : ValueTy) → (field : Field) → (old : t.Val) → {p : Nat} →
    Ends (get t field old) m p
  | .scalar s, _, _, _ => ends_getScalar s
  | .array _ _, _, _, _ => ends_getArrayInto.bind fun _ _ _ => ends_getArrayInto
  | .set s, _, _, _ => ends_getArrayInto.bind fun _ _ _ => (ends_getArray s _).bind fun _ _ _ =>
    ends_pure _
  | .multiArray _ _, _, _, _ => ends_getMultiArray
  | .map _ key value, field, old, p => by
    have hval : ∀ field p, Ends (get value field value.default) m p := fun field p =>
      ends_get value field value.default
    rw [get]
    refine ends_getCount.bind fun nElements _ _ => ends_getByte.bind fun keyType _ _ =>
      ends_ite (fun _ => ends_throwProtocol _) fun _ => ?_
    refine ends_getCount.bind fun nElementsCheck _ _ =>
      ends_ite (fun _ => ends_throwProtocol _) fun _ => ?_
    refine (ends_times (fun _ => ends_getScalar key) _).bind fun keys _ _ =>
      ends_getByte.bind fun valueType _ _ => ?_
    cases value.scalar? with
    | some s =>
      refine ends_ite (fun _ => ends_throwProtocol _) fun _ =>
        ends_getCount.bind fun _ _ _ =>
          ends_ite (fun _ => ends_throwProtocol _) fun _ => ?_
      exact ends_getEntries fun _ p => hval field p
    | none =>
      refine ends_ite (fun _ => ?_) fun _ => ends_throwProtocol _
      exact ends_getString.bind fun _ _ _ => ends_getString.bind fun _ _ _ =>
        (ends_getInt 4).bind fun _ _ _ => ends_getEntries fun i p => hval (entryField field i) p

variable (check : ProtocolCheck)

theorem ends_getMetaInfo (dataStart : Nat) : Ends (getMetaInfo check dataStart) m p := by
  have hstring : ∀ {p}, Ends (getMetaString dataStart) m p := by
    intro p
    exact ends_bind_ok rfl <| ends_ite (fun _ => ends_pure _) fun _ =>
      ends_getString.bind fun _ _ _ => ends_pure _
  have hall : Ends (getMetaString dataStart >>= fun _ => getMetaString dataStart >>= fun _ =>
      getMetaString dataStart >>= fun _ => position >>= fun position =>
        if position = dataStart then pure () else getByte >>= fun _ => pure ()) m p :=
    hstring.bind fun _ _ _ => hstring.bind fun _ _ _ => hstring.bind fun _ _ _ =>
      ends_bind_ok rfl <| ends_ite (fun _ => ends_pure _) fun _ =>
        ends_getByte.bind fun _ _ _ => ends_pure _
  cases check with
  | ignore => exact ends_pure _
  | lenient => exact hall
  | always => exact hall

theorem ends_getHeader (info : DeserialiserInfo) (field : Field) :
    Ends (getHeader check info field) m p := by
  exact ends_bind_ok rfl <| ends_getByte.bind fun _ _ _ => (ends_getInt 4).bind fun _ _ _ =>
    (ends_getInt 4).bind fun _ _ _ => ends_getString.bind fun _ _ _ =>
      (ends_getMetaInfo _ _).bind fun _ _ _ => ends_pure _

theorem ends_checkHeaderInfo (info : DeserialiserInfo) : Ends (checkHeaderInfo check info) m p := by
  exact (ends_getInt 4).bind fun _ _ _ => ends_ite (fun _ => ends_handleUnlessIgnored _)
    fun _ => ends_getString.bind fun _ _ _ =>
      ends_ite (fun _ => ends_handleUnlessIgnored _) fun _ =>
        (ends_getInt 1).bind fun _ _ _ => (ends_getInt 1).bind fun _ _ _ =>
          (ends_getInt 1).bind fun _ _ _ =>
            ends_ite (fun _ => ends_handleUnlessIgnored _) fun _ => ends_pure _

variable {fuel : Nat}

theorem ending : Ending (yas abi) fuel m noCalls where
  checkHeaderInfo check info _ := ends_checkHeaderInfo check info
  getHeader check info field _ := ends_getHeader check info field
  getStart field _ := ends_pure field
  getLeaf t field old _ := (ends_get t field old).map _
  getStructs _ _ _ _ _ _ _ := ends_throwProtocol _
  skipOther _ h := nomatch h
  element h := h.elim

/-! ## And can be replayed -/

theorem fill_replay {α : Type} : {n : Option Nat} → {old v : Seq n α} → {vs : List α} →
    old.fill vs = some v → (old' : Seq n α) → ∃ v', old'.fill vs = some v'
  | none, _, _, vs, _, _ => ⟨vs, rfl⟩
  | some n, old, v, vs, h, old' => by
    rw [Seq.fill] at h
    split_ifs at h with hlen
    exact ⟨_, dif_pos hlen⟩

theorem getArrayInto_replay {s : Scalar} {n : Option Nat} {requestedSize : Nat} {old v : Seq n s.Val}
    (h : getArrayInto s n requestedSize old m p = .ok (v, q)) (old' : Seq n s.Val) :
    ∃ v', getArrayInto s n requestedSize old' m p = .ok (v', q) := by
  unfold getArrayInto at h ⊢
  obtain ⟨vs, _, hvs, h⟩ := bind_ok_iff.mp h
  cases hfill : old.fill vs with
  | none =>
    rw [hfill] at h
    cases h
  | some w =>
    rw [hfill] at h
    cases h
    obtain ⟨v', hv'⟩ := fill_replay hfill old'
    exact ⟨v', by rw [bind_of_ok hvs, hv']; rfl⟩

theorem getEntries_replay {K V : Type} [LinearOrder K] {r r' : Nat → Get V}
    (hr : ∀ {i p v q}, r i m p = .ok (v, q) → ∃ v', r' i m p = .ok (v', q)) :
    ∀ {n i p q : Nat} {keys : List K} {old value : SortedMap K V} (old' : SortedMap K V),
      getEntries r i n keys old m p = .ok (value, q) →
      ∃ value', getEntries r' i n keys old' m p = .ok (value', q)
  | 0, i, p, q, keys, old, value, old', h => by
    cases h
    exact ⟨old', rfl⟩
  | n + 1, i, p, q, keys, old, value, old', h => by
    rw [getEntries] at h
    obtain ⟨v, _, hv, h⟩ := bind_ok_iff.mp h
    cases keys with
    | nil => cases h
    | cons k keys =>
      obtain ⟨v', hv'⟩ := hr hv
      obtain ⟨value', hval'⟩ := getEntries_replay hr (old'.insert k v') h
      exact ⟨value', by rw [getEntries, bind_of_ok hv']; exact hval'⟩

/-- The bytes alone decide how far a value is read. -/
theorem get_replay : (t : ValueTy) → {f : Field} → (g : Field) → {old v : t.Val} → (old' : t.Val) →
    {p q : Nat} → get t f old m p = .ok (v, q) → ∃ v', get t g old' m p = .ok (v', q)
  | .scalar _, _, _, _, v, _, _, _, h => ⟨v, h⟩
  | .array _ _, _, _, _, _, old', _, _, h => by
    obtain ⟨_, p₁, hdims, h⟩ := bind_ok_iff.mp h
    obtain ⟨v', hv'⟩ := getArrayInto_replay h old'
    exact ⟨v', (bind_of_ok hdims _).trans hv'⟩
  | .set _, _, _, _, v, _, _, _, h => ⟨v, h⟩
  | .multiArray _ _, _, _, _, v, _, _, _, h => ⟨v, h⟩
  | .map _ key value, f, g, old, v, old', p, q, h => by
    have hval : ∀ f g {p v q}, get value f value.default m p = .ok (v, q) →
        ∃ v', get value g value.default m p = .ok (v', q) :=
      fun f g {p v q} h => get_replay value g value.default h
    rw [get] at h ⊢
    obtain ⟨_, p₁, hcnt, h⟩ := bind_ok_iff.mp h
    obtain ⟨_, _, htype, h⟩ := bind_ok_iff.mp h
    rw [bind_of_ok hcnt, bind_of_ok htype]
    split_ifs at h ⊢ with hkey
    · cases h
    obtain ⟨_, _, hcheck, h⟩ := bind_ok_iff.mp h
    rw [bind_of_ok hcheck]
    split_ifs at h ⊢ with hsame
    · cases h
    obtain ⟨_, _, hkeys, h⟩ := bind_ok_iff.mp h
    obtain ⟨_, _, hvalueType, h⟩ := bind_ok_iff.mp h
    rw [bind_of_ok hkeys, bind_of_ok hvalueType]
    cases hscalar : value.scalar? with
    | some s =>
      rw [hscalar] at h
      dsimp only at h ⊢
      split_ifs at h ⊢ with hvalueId
      · cases h
      obtain ⟨nValues, p₆, hvals, h⟩ := bind_ok_iff.mp h
      rw [bind_of_ok hvals]
      split_ifs at h ⊢ with hsame'
      · cases h
      exact getEntries_replay (hval f g) ∅ h
    | none =>
      rw [hscalar] at h
      dsimp only at h ⊢
      split_ifs at h ⊢ with hother
      · obtain ⟨_, p₆, hs, h⟩ := bind_ok_iff.mp h
        obtain ⟨_, _, hs', h⟩ := bind_ok_iff.mp h
        obtain ⟨nValues, _, hvals, h⟩ := bind_ok_iff.mp h
        rw [bind_of_ok hs, bind_of_ok hs', bind_of_ok hvals]
        exact getEntries_replay (fun {i} {p} {v} {q} h => hval (entryField f i) (entryField g i) h)
          old' h
      · cases h

variable {info info' : DeserialiserInfo} {check : ProtocolCheck}

/-- A header is read the same whatever has been read before it. -/
theorem getHeader_eq_ok {f f' : Field} (h : getHeader check info f m p = .ok ((info', f'), q)) :
    info' = info ∧ f'.hierarchyDepth = f.hierarchyDepth ∧ ∀ j g, getHeader check j g m p =
      .ok ((j, { f' with subfields := g.subfields, hierarchyDepth := g.hierarchyDepth }), q) := by
  unfold getHeader at h ⊢
  rw [position_bind] at h
  obtain ⟨_, _, htype, h⟩ := bind_ok_iff.mp h
  obtain ⟨_, _, hoffset, h⟩ := bind_ok_iff.mp h
  obtain ⟨_, _, hsize, h⟩ := bind_ok_iff.mp h
  obtain ⟨_, _, hname, h⟩ := bind_ok_iff.mp h
  obtain ⟨_, _, hmeta, h⟩ := bind_ok_iff.mp h
  cases h
  refine ⟨rfl, rfl, fun j g => ?_⟩
  rw [position_bind, bind_of_ok htype, bind_of_ok hoffset, bind_of_ok hsize, bind_of_ok hname]
  exact (bind_of_ok hmeta _).trans rfl

theorem replaying : Replaying (yas abi) m fun f g => f.hierarchyDepth = g.hierarchyDepth where
  of_alike h := h.hierarchyDepth
  depth h := h
  getHeader hdep h := by
    obtain ⟨rfl, hdep', hagain⟩ := getHeader_eq_ok h
    exact ⟨.refl _, fun j => ⟨j, _, hagain j _, ⟨rfl, rfl, rfl, rfl, rfl, hdep'.trans hdep⟩, .refl j⟩⟩
  getStart hfg h := by
    cases h
    exact ⟨_, rfl, hfg⟩
  getLeaf old' p v f' q hfg h := by
    obtain ⟨v, hv, hpair⟩ := map_ok_iff.mp h
    cases hpair
    obtain ⟨v', hv'⟩ := get_replay _ _ old' hv
    exact ⟨v', _, map_of_ok hv' _, hfg⟩
  getStructs _ _ _ _ _ h := nomatch h
  skipOther h := nomatch h

/-! ## The loop over the fields -/

/-- A plain member leaves the description as the header gave it. -/
theorem readPlain_field {P : SerialiserProtocol} {ctx : MemberContext}
    {name : Bytes} {requestedType : UInt8} {α : Type} {d : α}
    {read : Field → α → Get (α × Field)} {h : Holder} {x y : Slot h α} {f f' : Field}
    (hread : ∀ {old a f' p q}, read f old m p = .ok ((a, f'), q) → f' = f)
    (hplain : readPlain P check ctx name requestedType d read x f info m p =
      .ok ((y, f', info'), q)) : f' = f := by
  unfold readPlain at hplain
  split_ifs at hplain with htype
  · obtain ⟨_, p₁, -, hplain⟩ := bind_ok_iff.mp hplain
    obtain ⟨_, p₂, -, hplain⟩ := bind_ok_iff.mp hplain
    exact (mk.inj (mk.inj (pure_eq_ok.mp hplain).1).2).1.symm
  · obtain ⟨⟨a, _⟩, p₁, ha, hplain⟩ := bind_ok_iff.mp hplain
    obtain ⟨_, p₂, -, hplain⟩ := bind_ok_iff.mp hplain
    exact (mk.inj (mk.inj (pure_eq_ok.mp hplain).1).2).1.symm.trans (hread ha)

theorem read_field {ctx : MemberContext} {k : MemberKind} {x y : k.Val} {f f' : Field}
    (h : k.read (yas abi) fuel check ctx x f info m p = .ok ((y, f', info'), q)) :
    f'.hierarchyDepth = f.hierarchyDepth ∧ f'.dataEndPosition = f.dataEndPosition := by
  cases k with
  | none =>
    obtain ⟨hres, -⟩ := pure_eq_ok.mp h
    obtain ⟨rfl, -⟩ := mk.inj (mk.inj hres).2
    exact ⟨rfl, rfl⟩
  | leaf name holder ty =>
    obtain rfl := readPlain_field (fun {old a f' p q} hread => by
      obtain ⟨v, -, hpair⟩ := map_ok_iff.mp hread
      exact (mk.inj hpair).2.symm) h
    exact ⟨rfl, rfl⟩
  | structs name holder n typeName inner =>
    rw [MemberKind.read] at h
    obtain rfl := readPlain_field (fun {old a f' p q} hread => by
      obtain ⟨v, -, hpair⟩ := map_ok_iff.mp hread
      exact (mk.inj hpair).2.symm) h
    exact ⟨rfl, rfl⟩
  | nested name holder typeName inner =>
    rw [MemberKind.read, readNested, setPosition_bind] at h
    obtain ⟨_, _, -, h⟩ := bind_ok_iff.mp h
    obtain ⟨_, _, -, h⟩ := bind_ok_iff.mp h
    obtain ⟨rfl, -⟩ := mk.inj (mk.inj (pure_eq_ok.mp h).1).2
    exact ⟨rfl, rfl⟩

theorem skipToDataEnd_position {f : Field}
    (hend : f.dataEndPosition ≠ sizeMax) (h : skipToDataEnd check f info m p = .ok (info', q)) :
    q = f.dataEndPosition := by
  rw [skipToDataEnd, position_bind] at h
  by_cases hp : f.dataEndPosition = p
  · rw [if_neg fun h => h.2 hp] at h
    rw [hp]
    exact (pure_eq_ok.mp h).2.symm
  · rw [if_pos ⟨hend, hp⟩] at h
    obtain ⟨_, _, -, h⟩ := bind_ok_iff.mp h
    rw [moveToFieldEndBufferPosition, if_pos hend, setPosition_bind] at h
    exact (pure_eq_ok.mp h).2.symm

/-- From one header to the next: a round keeps the depth, and goes on where
the header says that the data ends. -/
theorem next_eq {L : Loop} {x y : L.State} (h : Next (L.step (yas abi) fuel) m x y) :
    ∃ info f q, getHeader L.check x.1.info x.1.field m x.2 = .ok ((info, f), q) ∧
      y.1.field.hierarchyDepth = x.1.field.hierarchyDepth ∧
      (f.dataEndPosition ≠ sizeMax → y.2 = f.dataEndPosition) := by
  obtain ⟨-, info, f, q, hhdr, -, hfollow⟩ := next_iff.mp h
  have hdep := (getHeader_eq_ok hhdr).2.1
  rw [Loop.follow] at hfollow
  cases hidx : findMemberIndex L.members.names f.fieldName with
  | none =>
    rw [hidx] at hfollow
    obtain ⟨info₂, p₂, hskip, hfollow⟩ := bind_ok_iff.mp hfollow
    obtain ⟨hstate, rfl⟩ := pure_eq_ok.mp hfollow
    refine ⟨info, f, q, hhdr, by rw [← hstate]; exact hdep, fun hend => ?_⟩
    rw [skipUnknownField_eq, position_bind, size_bind] at hskip
    obtain ⟨_, _, -, hskip⟩ := bind_ok_iff.mp hskip
    rw [skipData, if_pos hend, moveToFieldEndBufferPosition, if_pos hend, setPosition_bind] at hskip
    exact (pure_eq_ok.mp hskip).2.symm
  | some index =>
    rw [hidx] at hfollow
    obtain ⟨⟨v, _, info₂⟩, p₂, hkind, hfollow⟩ := bind_ok_iff.mp hfollow
    obtain ⟨_, _, hskip, hfollow⟩ := bind_ok_iff.mp hfollow
    obtain ⟨hstate, rfl⟩ := pure_eq_ok.mp hfollow
    obtain ⟨hdep', hdataEnd⟩ := read_field hkind
    refine ⟨info, f, q, hhdr, by rw [← hstate]; exact hdep'.trans hdep, fun hend => ?_⟩
    rw [← hdataEnd] at hend ⊢
    exact skipToDataEnd_position hend hskip

theorem hierarchyDepth_eq {L : Loop} {x y : L.State}
    (h : TransGen (Next (L.step (yas abi) fuel) m) x y) :
    x.1.field.hierarchyDepth = y.1.field.hierarchyDepth := by
  induction h with
  | single hnext =>
    obtain ⟨_, _, _, -, hdep, -⟩ := next_eq hnext
    exact hdep.symm
  | tail _ hnext ih =>
    obtain ⟨_, _, _, -, hdep, -⟩ := next_eq hnext
    exact ih.trans hdep.symm

/-- A struct with one member. -/
def switch : StructTy where
  typeName := str "Switch"
  members := .leaf ⟨str "on", isIdentifier_on⟩ .direct (.scalar .bool) .nil

/-- A message whose only field says that its data is the byte in front of
its header, so that it ends where the header begins. Unit, quantity,
description and modifier are given, as the data does not follow the name. -/
def backwards : Memory where
  data := headerInfo ++ [startMarkerId] ++ putInt 4 14 ++ putInt 4 0 ++ putString [] ++
    [1] ++ putInt 4 (-1) ++ putInt 4 1 ++ putString (str "on") ++
    putString [] ++ putString [] ++ putString [] ++ [0]
  beyond _ := none

def switchLoop : Loop := ⟨switch.typeName, switch.members, .always, rootName⟩

/-- The loop over the fields of the message, behind the start marker and
after its first round. -/
def switchField (headerStart dataStart dataEnd : Nat) (id : UInt8) (name : Bytes) : Field where
  headerStart := headerStart
  dataStartPosition := dataStart
  dataEndPosition := dataEnd
  subfields := -1
  fieldName := name
  intDataType := id
  hierarchyDepth := 0

def switchStart : switchLoop.State :=
  (⟨(false, ()), switchField 15 29 29 startMarkerId [],
    { setFields := SortedMap.ofEntries [(rootName, [false])] }⟩, 29)

def switchAgain : switchLoop.State :=
  (⟨(false, ()), switchField 29 28 29 1 (str "on"),
    { setFields := SortedMap.ofEntries [(rootName, [true])] }⟩, 29)

theorem switchLoop_step (fuel : Nat) :
    switchLoop.step (yas sortedAbi) fuel = switchLoop.step (yas sortedAbi) 0 := by
  have hmember : switch.members.readMember (yas sortedAbi) fuel =
      switch.members.readMember (yas sortedAbi) 0 := by
    funext check ctx i v field info
    cases i <;> rfl
  unfold Loop.step Members.reader
  rw [show switchLoop.members.readMember (yas sortedAbi) fuel =
    switchLoop.members.readMember (yas sortedAbi) 0 from hmember]

end OpenCmw.Io.Yas
