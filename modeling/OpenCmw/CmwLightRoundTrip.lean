import OpenCmw.CmwLightSerialiser

/-!
# CmwLight messages and the counter of the reader

The reader of a map overwrites the counter of the struct that the map
belongs to with the number of the map's entries, and nothing restores it.
`counter` follows the counter through the members of a value: from the
number of members, one less behind each member, the number of entries
behind a map, and no result if it is 0 while a member is still to come.

A struct is read back if its counter arrives at its last member. Inside
the message the counter must also be 0 there, or the struct would go on
with what follows it; at the end of the buffer the loop stops by itself.
`balanced` says this of the nested structs. Without maps both hold of any
value (`counter_of_noMaps`), so they fail only through maps.
-/

namespace OpenCmw.Io.CmwLight

open Except (ok)
open Members (written)
open List Option Nat Int ByteReader

/-! ## The counter -/

theorem toInt16_pred (i : Int) : toInt16 (toInt16 i - 1) = toInt16 (i - 1) := by
  rw [toInt16, toInt16, toInt16, sub_eq_add_neg, bmod_add_bmod, ← sub_eq_add_neg]

variable {c : Nat} {depth : UInt8} {t : ValueTy} {v : t.Val} {fuel : Nat} {buf data : Bytes}
  {field : Field} {body : Bytes} {f : Bytes → Put} {s : Scalar} {m : Memory} {p : Nat}
  {name : Bytes} {id : UInt8}

/-- A counter below 65535 is 0 only if it is, and never -1. -/
theorem toInt16_natCast (h : c < 65535) : (toInt16 c = 0 ↔ c = 0) ∧ toInt16 c ≠ -1 := by
  rw [toInt16, bmod_def]
  omega

theorem toInt16_toInt16 (i : Int) : toInt16 (toInt16 i) = toInt16 i := bmod_bmod

/-- The counter behind a plain member. -/
def counterAfter : (t : ValueTy) → t.Val → Nat → Nat
  | .map _ _ _, v, _ => v.entries.length
  | _, _, c => c - 1

/-- The counter behind the members of a struct, if it is not 0 before one of
them. -/
def counter : (ms : Members) → ms.Val → Nat → Option Nat
  | .nil, _, c => some c
  | .leaf _ _ ty rest, (x, xs), c =>
    match x.get? with
    | none => counter rest xs c
    | some a => if c = 0 then none else counter rest xs (counterAfter ty a c)
  | .nested _ _ _ _ rest, (x, xs), c =>
    match x.get? with
    | none => counter rest xs c
    | some _ => if c = 0 then none else counter rest xs (c - 1)
  | .structs _ _ _ _ _ rest, (x, xs), c =>
    match x.get? with
    | none => counter rest xs c
    | some _ => if c = 0 then none else counter rest xs (c - 1)

/-- A struct whose members leave this counter ends where it should. -/
def stops (last : Bool) : Option Nat → Bool
  | some c => c == 0 || last
  | none => false

/-- Every nested struct ends where it should. `last` says that nothing
follows in the message. -/
def balanced : (ms : Members) → ms.Val → Bool → Bool
  | .nil, _, _ => true
  | .leaf _ _ _ rest, (_, xs), last => balanced rest xs last
  | .nested _ _ _ inner rest, (x, xs), last =>
    (x.get?.all fun a =>
      balanced inner a (last && rest.written xs == 0) &&
        stops (last && rest.written xs == 0) (counter inner a (inner.written a))) &&
    balanced rest xs last
  | .structs _ _ _ _ _ rest, (_, xs), last => balanced rest xs last

/-! ## What can be written -/

/-- A value that has a serialiser. Maps need fewer entries than the counter
can hold, and keys without a zero. -/
def Supported : (t : ValueTy) → t.Val → Prop
  | .map .map .string (.scalar _), v => v.entries.length < 65535 ∧ ∀ e ∈ v.entries, 0 ∉ e.1
  | .map _ _ _, _ => False
  | _, _ => True

def Writable : (ms : Members) → ms.Val → Prop
  | .nil, _ => True
  | .leaf _ _ ty rest, (x, xs) => (∀ a ∈ x.get?, Supported ty a) ∧ Writable rest xs
  | .nested _ _ _ inner rest, (x, xs) =>
    (∀ a ∈ x.get?, inner.written a < 65535 ∧ Writable inner a) ∧ Writable rest xs
  | .structs _ _ _ _ _ rest, (x, xs) => x.get? = none ∧ Writable rest xs

instance decidableSupported : (t : ValueTy) → (v : t.Val) → Decidable (Supported t v)
  | .map .map .string (.scalar _), v =>
    inferInstanceAs (Decidable (v.entries.length < 65535 ∧ ∀ e ∈ v.entries, (0 : UInt8) ∉ e.1))
  | .map .map .string (.array _ _), _ | .map .map .string (.set _), _
  | .map .map .string (.multiArray _ _), _ | .map .map .string (.map _ _ _), _
  | .map .map .bool _, _ | .map .map (.int _) _, _ | .map .unorderedMap _ _, _ =>
    inferInstanceAs (Decidable False)
  | .scalar _, _ | .array _ _, _ | .set _, _ | .multiArray _ _, _ =>
    inferInstanceAs (Decidable True)

instance decidableWritable : (ms : Members) → (v : ms.Val) → Decidable (Writable ms v)
  | .nil, _ => inferInstanceAs (Decidable True)
  | .leaf _ _ ty rest, (x, xs) =>
    have := decidableWritable rest
    inferInstanceAs (Decidable ((∀ a ∈ x.get?, Supported ty a) ∧ Writable rest xs))
  | .nested _ _ _ inner rest, (x, xs) =>
    have := decidableWritable inner
    have := decidableWritable rest
    inferInstanceAs (Decidable
      ((∀ a ∈ x.get?, inner.written a < 65535 ∧ Writable inner a) ∧ Writable rest xs))
  | .structs _ _ _ _ _ rest, (x, xs) =>
    have := decidableWritable rest
    inferInstanceAs (Decidable (x.get? = none ∧ Writable rest xs))

/-- The keys of a map lie below the map. -/
def height : ValueTy → Nat
  | .map _ _ _ => 2
  | _ => 1

/-- The largest depth of a name, that of the members of the outermost struct
being 1. -/
def levels : Members → Nat
  | .nil => 0
  | .leaf _ _ ty rest => max (height ty) (levels rest)
  | .nested _ _ _ inner rest => max (levels inner + 1) (levels rest)
  | .structs _ _ _ _ _ rest => levels rest

/-! ## What the writer leaves in the buffer -/

/-- A member: its name, its type id, its data. -/
def memberText (name : Bytes) (id : UInt8) (data : Bytes) : Bytes :=
  putString name ++ ([id] ++ data)

/-- The data of a plain member. -/
def plainText : (t : ValueTy) → t.Val → Bytes
  | .scalar s, v => putScalar s v
  | .array _ _, v => putInt 4 1 ++ (putInt 4 v.toList.length ++ putArray v.toList)
  | .set s, v => putInt 4 v.keys.length ++ v.keys.flatMap (putScalar s)
  | .multiArray _ _, v => putMultiArray v
  | .map .map .string (.scalar s), v =>
    putInt 4 v.entries.length ++
      v.entries.flatMap fun e => memberText e.1 (scalarId s) (putScalar s e.2)
  | .map _ _ _, _ => []

/-- The members of a struct. -/
def wire : (ms : Members) → ms.Val → Bytes
  | .nil, _ => []
  | .leaf name _ ty rest, (x, xs) =>
    match x.get? with
    | none => wire rest xs
    | some a => memberText (sanitizeFieldName name.bytes) (typeId ty) (plainText ty a) ++ wire rest xs
  | .nested name _ _ inner rest, (x, xs) =>
    match x.get? with
    | none => wire rest xs
    | some a => memberText (sanitizeFieldName name.bytes) startMarkerId
        (putInt 4 (toInt16 (inner.written a)) ++ wire inner a) ++ wire rest xs
  | .structs _ _ _ _ _ rest, (_, xs) => wire rest xs

theorem cStr_of_not_mem {key : Bytes} (h : (0 : UInt8) ∉ key) : cStr key = key := by
  rw [cStr, takeWhile_eq_self_iff]
  intro b hb
  have hne : b ≠ 0 := fun hzero => h (hzero ▸ hb)
  exact decide_eq_true hne

theorem putHeader_of_ne_zero (h : depth ≠ 0) (name : Bytes) (id : UInt8) :
    putHeader depth name id = putString name ++ [id] := by
  rw [putHeader, if_pos h]

/-- The data of a supported value; the depth matters only for the keys of a
map. -/
theorem put_eq (h : Supported t v)
    (hdep : depth.toNat + height t ≤ 256) : put t depth v = .ok (plainText t v) := by
  match t, v, h with
  | .scalar _, _, _ => rfl
  | .array _ _, _, _ =>
    rw [put, plainText, append_assoc]
  | .set _, _, _ => rfl
  | .multiArray _ _, _, _ => rfl
  | .map .map .string (.scalar s), v, h =>
    have hkey : depth + 1 ≠ 0 := (depth_succ depth (by rw [height] at hdep; omega)).1
    have hents : v.entries.mapM (fun e =>
        (putHeader (depth + 1) (cStr e.1) (typeId (.scalar s)) ++ ·) <$>
          put (.scalar s) (depth + 1) e.2)
        = .ok (v.entries.map fun e => memberText e.1 (scalarId s) (putScalar s e.2)) := by
      refine mapM_eq_ok_map fun e he => ?_
      rw [putHeader_of_ne_zero hkey, cStr_of_not_mem (h.2 e he)]
      exact congrArg ok (append_assoc ..)
    rw [put, hents, ok_bind, plainText, flatMap_def]

theorem height_pos (t : ValueTy) : 1 ≤ height t := by
  cases t <;> simp [height]

theorem putLeaf_eq
    (hdep : field.hierarchyDepth ≠ 0) (hput : put t field.hierarchyDepth v = .ok data) :
    (cmwLight fuel).putLeaf buf field t v =
      .ok (buf ++ memberText field.fieldName (typeId t) data) := by
  show (buf ++ putHeader field.hierarchyDepth field.fieldName (typeId t) ++ ·) <$>
    put t field.hierarchyDepth v = _
  rw [hput, putHeader_of_ne_zero hdep]
  show ok _ = ok _
  simp only [memberText, append_assoc]

theorem writeStruct_of_putStart {start : Bytes} (hstart : (cmwLight fuel).putStart buf field = .ok (start, sizeMax))
    (h : ∀ buf, f buf = .ok (buf ++ body)) :
    writeStruct (cmwLight fuel) field f buf = .ok (start ++ body) := by
  rw [writeStruct, hstart, ok_bind]
  dsimp only
  rw [h, ok_bind]
  rfl

/-- A struct below the root. -/
theorem writeStruct_eq (hdep : field.hierarchyDepth ≠ 0) (h : ∀ buf, f buf = .ok (buf ++ body)) :
    writeStruct (cmwLight fuel) field f buf = .ok (buf ++ memberText field.fieldName startMarkerId
      (putInt 4 field.subfields ++ body)) := by
  have hstart : (cmwLight fuel).putStart buf field = .ok (buf ++
      (putString field.fieldName ++ [startMarkerId]) ++ putInt 4 field.subfields, sizeMax) := by
    show ok _ = ok _
    rw [if_pos hdep, putHeader_of_ne_zero hdep]
  rw [writeStruct_of_putStart hstart h]
  simp only [memberText, append_assoc]

/-- The root has no header. -/
theorem writeStruct_root (buf : Bytes) (field : Field)
    (hdep : field.hierarchyDepth = 0) (h : ∀ buf, f buf = .ok (buf ++ body)) :
    writeStruct (cmwLight fuel) field f buf = .ok (buf ++ (putInt 4 field.subfields ++ body)) := by
  have hstart : (cmwLight fuel).putStart buf field =
      .ok (buf ++ [] ++ putInt 4 field.subfields, sizeMax) := by
    show ok _ = ok _
    rw [if_neg (not_not.mpr hdep)]
  rw [writeStruct_of_putStart hstart h]
  simp only [append_nil, append_assoc]

theorem serialise_eq (fuel : Nat) : ∀ {ms : Members} {v : ms.Val} (depth : UInt8) (buf : Bytes),
    Writable ms v → depth.toNat + levels ms ≤ 255 →
    ms.serialise (cmwLight fuel) v depth buf = .ok (buf ++ wire ms v)
  | .nil, _, _, buf, _, _ => congrArg ok (append_nil buf).symm
  | .leaf name _ ty rest, (x, xs), depth, buf, hwr, hdep => by
    have hheight := height_pos ty
    rw [levels] at hdep
    rw [Members.serialise, wire]
    cases hx : x.get? with
    | none => exact serialise_eq fuel _ buf hwr.2 (by omega)
    | some a =>
      obtain ⟨hne, hnext⟩ := depth_succ depth (by omega)
      dsimp only
      rw [putLeaf_eq hne (put_eq (hwr.1 a hx) _), ok_bind,
        serialise_eq fuel _ _ hwr.2 (by omega), append_assoc]
      · rfl
      · show (depth + 1).toNat + height ty ≤ 256
        omega
  | .nested name _ _ inner rest, (x, xs), depth, buf, hwr, hdep => by
    rw [levels] at hdep
    rw [Members.serialise, wire]
    cases hx : x.get? with
    | none => exact serialise_eq fuel _ buf hwr.2 (by omega)
    | some a =>
      obtain ⟨hne, hnext⟩ := depth_succ depth (by omega)
      dsimp only
      rw [writeStruct_eq hne fun buf =>
        serialise_eq fuel (depth + 1) buf (hwr.1 a hx).2 (by omega), ok_bind,
        serialise_eq fuel _ _ hwr.2 (by omega), append_assoc, newFieldHeader]
  | .structs _ _ _ _ _ rest, (x, xs), depth, buf, hwr, hdep => by
    rw [levels] at hdep
    rw [Members.serialise, wire, hwr.1]
    exact serialise_eq fuel _ buf hwr.2 hdep

/-- A message: the number of members and the members. -/
theorem serialise_root (fuel : Nat) {T : StructTy} {v : T.members.Val}
    (hwr : Writable T.members v) (hlevels : levels T.members ≤ 255) :
    serialise (cmwLight fuel) T v =
      .ok (putInt 4 (toInt16 (T.members.written v)) ++ wire T.members v) := by
  have hdep : (0 : UInt8).toNat + levels T.members ≤ 255 := by
    rw [UInt8.toNat_zero]
    omega
  have hbody : ∀ buf, T.members.serialise (cmwLight fuel) v 0 buf
      = .ok (buf ++ wire T.members v) := fun buf => serialise_eq fuel _ buf hwr hdep
  have hemp : [] ++ (cmwLight fuel).headerInfo = [] := rfl
  unfold serialise writeRoot
  dsimp only [newFieldHeader]
  rw [writeStruct_root _ _ rfl hbody, hemp, nil_append]

/-! ## Reading plain members -/

theorem reads_mulInt {i j : Int} (h : -2 ^ 31 ≤ i * j ∧ i * j < 2 ^ 31) :
    Reads (mulInt i j) [] (i * j) := by
  rw [mulInt, if_pos h]
  exact Reads.pure _

theorem reads_array (fuel : Nat) {n : Option Nat} {v : Seq n s.Val} (field : Field)
    (old : Seq n s.Val) (h : (plainText (.array n s) v).length < 2 ^ 31) :
    Reads (get fuel (.array n s) field old) (plainText (.array n s) v) (v, field) := by
  have hsize := length_le_putArray v.toList
  rw [plainText, length_append, length_append] at h
  have hproduct : -2 ^ 31 ≤ (1 : Int) * v.toList.length ∧ (1 : Int) * v.toList.length < 2 ^ 31 := by
    omega
  have hreq : v.toList.length ≤ toSize (1 * (v.toList.length : Int)) := by
    rw [one_mul, toSize_natCast]
  have hdata : Reads (getArrayInto s n (toSize (1 * (v.toList.length : Int))) old)
      (putArray v.toList) v := reads_getArrayInto (by omega) hreq
  rw [plainText, get]
  refine (reads_length (by decide)).bind ?_
  refine (reads_length (by omega)).bind ?_
  exact (reads_mulInt hproduct).bind (hdata.map fun v => (v, field))

theorem reads_set (fuel : Nat) {v : SortedMap s.Val Unit} (field : Field)
    (old : SortedMap s.Val Unit) (h : (plainText (.set s) v).length < 2 ^ 31) :
    Reads (get fuel (.set s) field old) (plainText (.set s) v) (v, field) := by
  have hsize := length_le_flatMap (putScalar_pos s) v.keys
  rw [plainText, length_append] at h
  have hdata := (reads_scalars v.keys (by omega)).map fun data =>
    (SortedMap.ofEntries (data.map fun v => (v, ())), field)
  rw [SortedMap.ofEntries_keys] at hdata
  rw [plainText, get]
  exact (reads_length (by omega)).bind hdata

theorem length_memberText (name : Bytes) (id : UInt8) (data : Bytes) :
    (memberText name id data).length = name.length + 6 + data.length := by
  rw [memberText, length_append, length_append, length_putString, length_singleton]
  omega

/-- The data behind the header of a member. -/
theorem memberText_data (hat : m.At p (memberText name id data)) :
    m.At (p + (name.length + 6)) data := by
  rw [memberText, ← append_assoc] at hat
  have hdata := hat.right
  rwa [length_append, length_putString, length_singleton] at hdata

/-- What the reader makes of a header with a name. -/
def headerField (field : Field) (p : Nat) (name : Bytes) (id : UInt8) (subfields : Int) : Field :=
  { field with
    headerStart := p
    dataStartPosition := p + (name.length + 6)
    dataEndPosition := sizeMax
    subfields := subfields
    fieldName := name
    intDataType := id }

theorem subfields_headerField (field : Field) (p : Nat) (name : Bytes) (id : UInt8) (i : Int) :
    (headerField field p name id i).subfields = i := rfl

variable (hat : m.At p (memberText name id data))
include hat

/-- A header where the counter does not stand for an end or for the root. -/
theorem getHeader_named (hm : m.size < 2 ^ 31) (hzero : field.subfields ≠ 0)
    (hroot : field.subfields ≠ -1 ∨ field.hierarchyDepth ≠ 0) :
    getHeader field m p = .ok (headerField field p name id
      (if field.subfields = -1 then -1 else toInt16 (field.subfields - 1)),
        p + (name.length + 6)) := by
  have hlen := hat.le_size
  rw [length_memberText] at hlen
  rw [memberText] at hat
  have hname := reads_getString (by rw [length_putString]; omega) m p hat.left
  have hid := reads_getByte id m _ hat.right.left
  have hpos : p + (putString name).length + [id].length = p + (name.length + 6) := by
    rw [length_putString, length_singleton]
    omega
  rw [getHeader, position_bind]
  rw [if_neg hzero, if_neg (by rintro ⟨hone, hdep⟩; exact hroot.elim (· hone) (· hdep)),
    bind_of_ok hname, bind_of_ok hid, position_bind, hpos]
  rfl

/-- The header of a member that is counted. -/
theorem getHeader_counted (hm : m.size < 2 ^ 31)
    (hsub : field.subfields = toInt16 (c + 1 : Nat)) (hc : c + 1 < 65535) :
    getHeader field m p = .ok (headerField field p name id (toInt16 c), p + (name.length + 6)) := by
  obtain ⟨hzero, hone⟩ := toInt16_natCast hc
  rw [← hsub] at hzero hone
  have hnext : toInt16 (field.subfields - 1) = toInt16 c := by
    rw [hsub, toInt16_pred]
    congr 1
    omega
  rw [getHeader_named hat hm (fun h => by have := hzero.mp h; omega) (Or.inl hone), if_neg hone, hnext]

/-- The header that a nested struct reads again is not counted. -/
theorem getHeader_again {n : Nat} {id' : UInt8} (hm : m.size < 2 ^ 31) (hdep : depth ≠ 0) :
    getHeader (newFieldHeader n [] depth id' (-1)) m p =
      .ok (headerField (newFieldHeader n [] depth id' (-1)) p name id (-1),
        p + (name.length + 6)) := by
  have hsub := subfields_newFieldHeader n [] depth id' (-1)
  rw [getHeader_named hat hm (by rw [hsub]; decide) (Or.inr hdep), if_pos hsub]

omit hat

/-- At 0 there is nothing left to read. -/
theorem getHeader_zero (hsub : field.subfields = 0) (m : Memory) (p : Nat) :
    ∃ field', getHeader field m p = .ok (field', p) ∧ field'.intDataType = endMarkerId ∧
      field'.dataStartPosition = p := by
  rw [getHeader, position_bind]
  rw [if_pos hsub]
  exact ⟨_, rfl, rfl, rfl⟩

theorem scalarId_ne_endMarkerId (s : Scalar) : scalarId s ≠ endMarkerId := by
  rcases s with _ | (_ | _ | _ | _) | _ <;> decide

/-- One entry is one round. -/
theorem getEntries_step {V : Type} {requestedType : UInt8} {d v : V}
    {read : Field → V → Get (V × Field)} {value : SortedMap Bytes V}
    {field₁ field₂ : Field} {q p' : Nat} (hp : p < m.size)
    (hhdr : getHeader field m p = .ok (field₁, q)) (hend : field₁.intDataType ≠ endMarkerId)
    (htype : requestedType = field₁.intDataType)
    (hread : ∀ old, read field₁ old m field₁.dataStartPosition = .ok ((v, field₂), p')) :
    getEntries requestedType d read (fuel + 1) value field m p =
      getEntries requestedType d read fuel (value.insert field₁.fieldName v) field₂ m p' := by
  rw [getEntries, position_bind, size_bind, if_pos hp,
    bind_of_ok hhdr, setPosition_bind, if_neg hend]
  dsimp only
  rw [if_neg (fun h => h.1 htype), bind_of_ok (hread _), SortedMap.insert_tryEmplace]

/-- An entry of a map. -/
def entryText (s : Scalar) (e : Bytes × s.Val) : Bytes :=
  memberText e.1 (scalarId s) (putScalar s e.2)

/-- The loop over the entries of a map reads as many as the counter says. -/
theorem getEntries_entries (hm : m.size < 2 ^ 31) (es : List (Bytes × s.Val)) :
    ∀ {fuel p : Nat} (value : SortedMap Bytes s.Val) (field : Field),
      es.length < 65535 → es.length < fuel → field.subfields = toInt16 es.length →
      m.At p (es.flatMap (entryText s)) →
      getEntries (scalarId s) s.default (fun field _ => (fun v => (v, field)) <$> getScalar s)
        fuel value field m p =
          .ok (SortedMap.assignAll es value, p + (es.flatMap (entryText s)).length) := by
  induction es with
  | nil =>
    intro fuel p value field _ hfuel hsub _
    obtain ⟨fuel, rfl⟩ := exists_eq_succ_of_ne_zero (ne_of_gt hfuel)
    rw [getEntries, position_bind, size_bind]
    by_cases hp : p < m.size
    · have hzero := (toInt16_natCast (by decide)).1.mpr rfl
      obtain ⟨_, hhdr, hid, hstart⟩ := getHeader_zero (hsub.trans hzero) m p
      rw [if_pos hp, bind_of_ok hhdr, setPosition_bind, if_pos hid, hstart]
      rfl
    · rw [if_neg hp]
      rfl
  | cons e es ih =>
    intro fuel p value field hlen hfuel hsub hat
    obtain ⟨fuel, rfl⟩ := exists_eq_succ_of_ne_zero (ne_of_gt (zero_lt_of_lt hfuel))
    rw [length_cons] at hlen hfuel hsub
    rw [flatMap_cons] at hat
    have hent := hat.left
    have hsize := hat.le_size
    rw [entryText] at hent
    rw [length_append, entryText, length_memberText] at hsize
    have hhdr := getHeader_counted hent hm hsub hlen
    have hscalar := reads_getScalar (by omega) m _ (memberText_data hent)
    have hend : p + (e.1.length + 6) + (putScalar s e.2).length = p + (entryText s e).length := by
      rw [entryText, length_memberText]
      omega
    rw [hend] at hscalar
    have hrest := ih (value.insert e.1 e.2) _ (by omega) (lt_of_succ_lt_succ hfuel)
      (subfields_headerField field p e.1 (scalarId s) _) hat.right
    have hid : scalarId s
        = (headerField field p e.1 (scalarId s) (toInt16 es.length)).intDataType := rfl
    refine (getEntries_step (by omega) hhdr (scalarId_ne_endMarkerId s) hid fun _ =>
      map_of_ok hscalar fun v => (v, _)).trans ?_
    refine hrest.trans ?_
    rw [flatMap_cons, length_append, add_assoc]
    rfl

/-- The description behind a start marker. -/
def startField (field : Field) (dataStart : Nat) (subfields : Int) : Field :=
  { field with subfields := subfields, dataStartPosition := dataStart }

theorem subfields_startField (field : Field) (dataStart : Nat) (i : Int) :
    (startField field dataStart i).subfields = i := rfl

/-- The reader of a map leaves the number of entries in the counter. -/
theorem get_map {v old : SortedMap Bytes s.Val} (field : Field) (hsupp : Supported (.map .map .string (.scalar s)) v)
    (hm : m.size < 2 ^ 31) (hfuel : m.size < fuel) (hcov : ∀ k ∈ old.keys, k ∈ v.keys)
    (hat : m.At p (plainText (.map .map .string (.scalar s)) v)) :
    get fuel (.map .map .string (.scalar s)) field old m p =
      .ok ((v, startField field (p + 4) (toInt16 v.entries.length)),
        p + (plainText (.map .map .string (.scalar s)) v).length) := by
  rw [plainText] at hat
  have hsize := hat.le_size
  have hents := length_le_flatMap
    (show ∀ e, 0 < (entryText s e).length from fun e => by rw [entryText, length_memberText]; omega)
    v.entries
  have htext : (v.entries.flatMap fun e => memberText e.1 (scalarId s) (putScalar s e.2))
      = v.entries.flatMap (entryText s) := rfl
  rw [htext] at hat hsize
  rw [length_append, length_putInt] at hsize
  have hcnt := reads_length (by omega) m p hat.left
  have hrest := hat.right
  rw [length_putInt] at hcnt hrest
  have hstart : getStart field m p =
      .ok (startField field (p + 4) (toInt16 v.entries.length), p + 4) := by
    rw [getStart, bind_of_ok hcnt, position_bind]
    rfl
  have hloop := getEntries_entries hm v.entries old
    (newFieldHeader m.size [] (startField field (p + 4) (toInt16 v.entries.length)).hierarchyDepth
      (scalarId s) (startField field (p + 4) (toInt16 v.entries.length)).subfields)
    hsupp.1 (show v.entries.length < fuel by omega)
    ((subfields_newFieldHeader ..).trans (subfields_startField ..)) hrest
  rw [SortedMap.assignAll_of_perm (List.Perm.refl _) hcov] at hloop
  have hread : get fuel (.scalar s) = fun field _ => (fun v => (v, field)) <$> getScalar s := by
    funext field old
    rw [get]
  rw [get, bind_of_ok hstart, size_bind, hread, typeId, ValueTy.default, bind_of_ok hloop]
  rw [plainText, htext, length_append, length_putInt, ← add_assoc]
  rfl

/-- What the reader of a plain member leaves in the description of its
field: all but the counter, which `c` is without this member. -/
structure Counts (t : ValueTy) (v : t.Val) (c : Nat) (field field' : Field) : Prop where
  hierarchyDepth : field'.hierarchyDepth = field.hierarchyDepth
  dataEndPosition : field'.dataEndPosition = field.dataEndPosition
  subfields : field'.subfields = toInt16 (counterAfter t v (c + 1))

theorem get_plain {old : t.Val} (field : Field) (hsupp : Supported t v) (hm : m.size < 2 ^ 31) (hfuel : m.size < fuel)
    (hcov : t.Covers v old) (hat : m.At p (plainText t v))
    (hsub : field.subfields = toInt16 c) :
    ∃ field', get fuel t field old m p = .ok ((v, field'), p + (plainText t v).length) ∧
      Counts t v c field field' := by
  have hlen := hat.le_size
  match t, v, old, hsupp, hcov with
  | .scalar s, v, old, _, _ =>
    refine ⟨field, ?_, rfl, rfl, hsub⟩
    rw [get]
    exact ((reads_getScalar (by rw [plainText] at hlen; omega)).map _) m p hat
  | .array n s, v, old, _, _ =>
    exact ⟨field, reads_array fuel field old (by omega) m p hat, rfl, rfl, hsub⟩
  | .set s, v, old, _, _ =>
    exact ⟨field, reads_set fuel field old (by omega) m p hat, rfl, rfl, hsub⟩
  | .multiArray s n, v, old, _, _ =>
    refine ⟨field, ?_, rfl, rfl, hsub⟩
    rw [get]
    exact ((reads_getMultiArray (by rw [plainText] at hlen; omega)).map _) m p hat
  | .map .map .string (.scalar s), v, old, hsupp, hcov =>
    refine ⟨_, get_map field hsupp hm hfuel hcov hat, rfl, rfl, ?_⟩
    rw [counterAfter, subfields_startField]

/-! ## The end of a struct -/

section Stop

variable {fuel rounds : Nat} {α : Type} {R : StructReader α} {parentName : Bytes} {value : α}
  {field : Field} {info : DeserialiserInfo} {m : Memory} {p : Nat}

/-- The loop stops where the buffer ends. -/
theorem readFields_bufferEnd (hp : p = m.size) :
    readFields (cmwLight fuel) .ignore R parentName (rounds + 1) value field info m p =
      .ok ((value, info), p) := by
  rw [readFields, position_bind, size_bind, if_neg (by omega)]
  have hcheck : checkBufferEnd .ignore R field info m p = .ok (info, p) := by
    rw [checkBufferEnd, position_bind, size_bind, if_neg (fun h => h.2 hp)]
    rfl
  rw [bind_of_ok hcheck]
  rfl

/-- The loop stops where the counter is 0. -/
theorem readFields_zero (hp : p ≤ m.size) (hsub : field.subfields = 0) :
    readFields (cmwLight fuel) .ignore R parentName (rounds + 1) value field info m p =
      .ok ((value, info), p) := by
  rcases lt_or_eq_of_le hp with hlt | heq
  · obtain ⟨field', hhdr, hid, hstart⟩ := getHeader_zero hsub m p
    have hmapped : (cmwLight fuel).getHeader .ignore info field m p = .ok ((info, field'), p) :=
      map_of_ok hhdr fun field => (info, field)
    rw [readFields_end hlt hmapped hid, hstart]
  · exact readFields_bufferEnd heq

end Stop

/-! ## Following the reader through the members -/

theorem typeId_ne_endMarkerId : (t : ValueTy) → typeId t ≠ endMarkerId
  | .scalar s => scalarId_ne_endMarkerId s
  | .array _ s | .set s | .multiArray s 0 | .multiArray s 1 | .multiArray s (_ + 2) => by
    rcases s with _ | (_ | _ | _ | _) | _ <;> intro h <;> cases h
  | .map .map .string _ => by intro h; cases h
  | .map .map .bool _ | .map .map (.int _) _ | .map .unorderedMap _ _ => by intro h; cases h

/-- The loop of a struct at this depth with this counter. -/
def CountedAt (depth : UInt8) (c : Nat) (field : Field) : Prop :=
  field.hierarchyDepth = depth ∧ field.subfields = toInt16 c

section Member

variable {fuel : Nat} {α : Type} {R : StructReader α} {pre : List Bytes} {parentName : Bytes}
  {size : Bytes → Nat} {m : Memory} {p c : Nat} {depth : UInt8} {name : Identifier}
  {holder : Holder} {rest : Members}

theorem consumes_leaf {ty : ValueTy} {C : (Members.leaf name holder ty rest).Val → α}
    (hemb : Embeds (cmwLight fuel) fuel .ignore R pre (.leaf name holder ty rest) C)
    (hnd : R.names.Nodup) {a : ty.Val} (y : Slot holder ty.Val) (ys : rest.Val)
    (hsupp : Supported ty a) (hcov : ty.Covers a (y.getOrCreate ty.default))
    (hm : m.size < 2 ^ 31) (hfuel : m.size < fuel) (hc : c + 1 < 65535)
    (hat : m.At p (memberText (sanitizeFieldName name.bytes) (typeId ty) (plainText ty a))) :
    Consumes (cmwLight fuel) .ignore R parentName size m 1 (CountedAt depth (c + 1)) (C (y, ys)) p
      (CountedAt depth (counterAfter ty a (c + 1))) (C (Slot.holding holder a, ys))
      (p + (memberText (sanitizeFieldName name.bytes) (typeId ty) (plainText ty a)).length) := by
  have hlen := hat.le_size
  rw [length_memberText] at hlen ⊢
  rw [← add_assoc]
  refine Consumes.member pre.length (by omega) fun field info hI hclean htr => ?_
  have hhdr := getHeader_counted hat hm hI.2 hc
  obtain ⟨field', hread, hcounts⟩ := get_plain
    (headerField field p (sanitizeFieldName name.bytes) (typeId ty) (toInt16 c)) hsupp hm hfuel hcov (memberText_data hat) (subfields_headerField ..)
  obtain ⟨info', hmember, hclean', hkeeps⟩ := hemb.readPlain rfl (·, ys) y field.subfields
    (fun _ => rfl) (absurd rfl) hclean htr (Or.inl rfl) hread
  exact ⟨_, _, field', info', map_of_ok hhdr fun field => (info, field),
    typeId_ne_endMarkerId ty, hemb.findMemberIndex rfl hnd, hmember,
    Or.inl hcounts.dataEndPosition, ⟨hcounts.hierarchyDepth.trans hI.1, hcounts.subfields⟩,
    hclean', hkeeps⟩

end Member

/-- Where the loop is when it has followed the counter through members that
end at `stop` and make up `target`: behind them, or at 0 before one. -/
def Arrives {α : Type} (result : Option Nat) (target : α) (stop : Nat) (c : Nat) (value : α)
    (position : Nat) : Prop :=
  match result with
  | some n => c = n ∧ value = target ∧ position = stop
  | none => c = 0 ∧ position < stop

/-- The loop follows the counter through the members `ms` wherever they
stand, as part of whatever struct. -/
def Follows (fuel : Nat) (ms : Members) : Prop :=
  ∀ (parentName : Bytes) (size : Bytes → Nat) (depth : UInt8) (c : Nat) (last : Bool)
    {v old : ms.Val}, Writable ms v → ms.Covers v old → ms.DistinctNames →
    balanced ms v last = true → c < 65535 → depth.toNat + levels ms ≤ 255 →
    ∀ {α : Type} {R : StructReader α} {pre : List Bytes} {C : ms.Val → α} {m : Memory} {p : Nat},
      Embeds (cmwLight fuel) fuel .ignore R pre ms C → R.names.Nodup → m.At p (wire ms v) →
      m.size < 2 ^ 31 → m.size < fuel → (last = true → p + (wire ms v).length = m.size) →
      ∃ rounds c' w q, rounds ≤ (wire ms v).length ∧
        Consumes (cmwLight fuel) .ignore R parentName size m rounds (CountedAt depth c) (C old) p
          (CountedAt depth c') w q ∧
        Arrives (counter ms v c) (C v) (p + (wire ms v).length) c' w q

/-- A counter survives its four bytes. -/
theorem bmod_toInt16 (i : Int) : (toInt16 i).bmod (256 ^ 4) = toInt16 i := by
  have hlo := le_bmod (x := i) (m := 2 ^ 16) (by decide)
  have hhi := bmod_lt (x := i) (m := 2 ^ 16) (by decide)
  rw [toInt16]
  refine bmod_eq_of_le ?_ ?_ <;> omega

variable {m : Memory} {p : Nat} {text : Bytes} {fuel c : Nat} {rest : Members}

theorem getStart_count {field : Field} {i : Int} (hat : m.At p (putInt 4 (toInt16 i) ++ text)) :
    getStart field m p = .ok (startField field (p + 4) (toInt16 i), p + 4) := by
  have hread := reads_getInt (ε := Exception) 4 (toInt16 i) m p hat.left
  rw [bmod_toInt16, length_putInt] at hread
  rw [getStart, bind_of_ok hread, position_bind, toInt16_toInt16]
  rfl

/-- A struct behind its header. If it is not the last of the buffer, its
counter must have come to 0. -/
theorem readStruct_follows {ms : Members} (hms : Follows fuel ms) (typeName : Bytes)
    (parent : Field) (last : Bool) {size : Bytes → Nat} {v old : ms.Val} {info : DeserialiserInfo}
    {field : Field} {q : Nat} (hwr : Writable ms v) (hcov : ms.Covers v old)
    (hdist : ms.DistinctNames) (hbal : balanced ms v last = true)
    (hwritten : ms.written v < 65535) (hdep : parent.hierarchyDepth.toNat + levels ms ≤ 255)
    (hhdr : getHeader (newFieldHeader m.size [] parent.hierarchyDepth unknownId (-1)) m p =
      .ok (field, q)) (hfield : field.hierarchyDepth = parent.hierarchyDepth)
    (hname : field.hierarchyDepth = 0 → field.fieldName = [])
    (hat : m.At q (putInt 4 (toInt16 (ms.written v)) ++ wire ms v)) (hm : m.size < 2 ^ 31)
    (hfuel : m.size < fuel) (hlast : last = true → q + 4 + (wire ms v).length = m.size)
    (hstops : last = true ∨ stops last (counter ms v (ms.written v)) = true)
    (hclean : Clean size info) : ∃ info' c w r, readStruct (cmwLight fuel) .ignore
        (ms.reader (cmwLight fuel) fuel .ignore typeName) fuel parent old info m p =
          .ok ((w, info'), r) ∧
      Arrives (counter ms v (ms.written v)) v (q + 4 + (wire ms v).length) c w r ∧
      Clean size info' ∧ KeepsBitFields info info' := by
  have hlen := hat.le_size
  rw [length_append, length_putInt] at hlen
  have hbody := hat.right
  rw [length_putInt] at hbody
  obtain ⟨hcleanInit, htr, hkeepsInit⟩ := initSetFields_spec .ignore parent.fieldName
    ms.names.length hclean fun h => absurd rfl h
  obtain ⟨rounds, c, w, r, hrnds, hloop, harrives⟩ :=
    hms parent.fieldName size parent.hierarchyDepth (ms.written v) last hwr hcov hdist
      hbal hwritten hdep (embeds_reader (cmwLight fuel) fuel .ignore typeName ms)
      hdist.nodup hbody hm hfuel hlast
  have hstop : c = 0 ∧ r ≤ m.size ∨ r = m.size := by
    cases hcounter : counter ms v (ms.written v) with
    | none =>
      rw [hcounter] at harrives
      exact Or.inl ⟨harrives.1, by have := harrives.2; omega⟩
    | some n =>
      rw [hcounter] at harrives hstops
      obtain ⟨rfl, -, rfl⟩ := harrives
      rcases hstops with hlast' | hstops
      · exact Or.inr (hlast hlast')
      · rcases (Bool.or_eq_true _ _).mp hstops with hzero | hlast'
        · exact Or.inl ⟨eq_of_beq hzero, by omega⟩
        · exact Or.inr (hlast hlast')
  have hstart : CountedAt parent.hierarchyDepth (ms.written v)
      (startField field (q + 4) (toInt16 (ms.written v))) :=
    ⟨hfield, subfields_startField ..⟩
  obtain ⟨info', hrun, hclean', hkeeps⟩ := hloop.readFields_eq hstart hcleanInit htr
    (show rounds < fuel by omega) fun field' info' rounds' hJ => by
      rcases hstop with ⟨rfl, hr⟩ | hr
      · exact readFields_zero hr (hJ.2.trans ((toInt16_natCast (by decide)).1.mpr rfl))
      · exact readFields_bufferEnd hr
  refine ⟨info', c, w, r, ?_, harrives, hclean', hkeepsInit.trans hkeeps⟩
  rw [readStruct_eq (map_of_ok hhdr _) (fun hzero => Or.inr (hname hzero)) (getStart_count hat)]
  exact hrun

section Member

variable {fuel : Nat} {α : Type} {R : StructReader α} {pre : List Bytes} {parentName : Bytes}
  {size : Bytes → Nat} {m : Memory} {p c : Nat} {depth : UInt8} {name : Identifier}
  {holder : Holder} {rest : Members}

/-- A nested struct behind its header. -/
def structText (ms : Members) (v : ms.Val) : Bytes :=
  putInt 4 (toInt16 (ms.written v)) ++ wire ms v

theorem consumes_nested {typeName : Bytes} {inner : Members} (hinner : Follows fuel inner)
    {C : (Members.nested name holder typeName inner rest).Val → α} (last : Bool)
    (hemb : Embeds (cmwLight fuel) fuel .ignore R pre (.nested name holder typeName inner rest) C)
    (hnd : R.names.Nodup) {a : inner.Val} (y : Slot holder inner.Val) (ys : rest.Val)
    (hwr : Writable inner a) (hwritten : inner.written a < 65535)
    (hcov : inner.Covers a (y.getOrCreate inner.default)) (hdist : inner.DistinctNames)
    (hbal : balanced inner a last = true)
    (hstops : stops last (counter inner a (inner.written a)) = true)
    (hdep : depth.toNat + 1 + levels inner ≤ 255)
    (hm : m.size < 2 ^ 31) (hfuel : m.size < fuel) (hc : c + 1 < 65535)
    (hat : m.At p (memberText (sanitizeFieldName name.bytes) startMarkerId
      (structText inner a)))
    (hlast : last = true → p + (memberText (sanitizeFieldName name.bytes) startMarkerId
      (structText inner a)).length = m.size) :
    Consumes (cmwLight fuel) .ignore R parentName size m 1 (CountedAt depth (c + 1)) (C (y, ys)) p
      (CountedAt depth c) (C (Slot.holding holder a, ys))
      (p + (memberText (sanitizeFieldName name.bytes) startMarkerId
        (structText inner a)).length) := by
  have hlen := hat.le_size
  have hend : p + (memberText (sanitizeFieldName name.bytes) startMarkerId
      (structText inner a)).length
      = p + ((sanitizeFieldName name.bytes).length + 6) + 4 + (wire inner a).length := by
    rw [length_memberText, structText, length_append, length_putInt]
    omega
  rw [hend] at hlen hlast ⊢
  refine Consumes.member pre.length (by omega) fun field info hI hclean htr => ?_
  have hhdr := getHeader_counted hat hm hI.2 hc
  obtain ⟨hne, hnext⟩ := Field.enter_depth
    (headerField field p (sanitizeFieldName name.bytes) startMarkerId (toInt16 c))
    startMarkerId (sanitizeFieldName name.bytes) hI.1 (by omega)
  obtain ⟨_, _, w, r, hread, harrives, hclean', hkeeps⟩ := readStruct_follows hinner typeName
    ((headerField field p (sanitizeFieldName name.bytes) startMarkerId (toInt16 c)).enter
      startMarkerId (sanitizeFieldName name.bytes)) last
    hwr hcov hdist hbal hwritten (by omega) (getHeader_again hat hm hne) rfl
    (fun hzero => absurd hzero hne) (memberText_data hat) hm hfuel hlast (Or.inr hstops) hclean
  -- the counter came through, so the value is complete
  obtain ⟨rfl, rfl⟩ : w = a ∧ r = p + ((sanitizeFieldName name.bytes).length + 6) + 4 +
      (wire inner a).length := by
    cases hcounter : counter inner a (inner.written a) with
    | none => rw [hcounter] at hstops; cases hstops
    | some n => rw [hcounter] at harrives; exact harrives.2
  obtain ⟨info'', hmember, hclean'', hkeeps'⟩ := hemb.readNested y ys field.subfields
    (absurd rfl) htr hclean'
    hkeeps hread
  have hcounter : toInt16 (field.subfields - 1) = toInt16 c := by
    rw [hI.2, toInt16_pred]
    congr 1
    omega
  exact ⟨_, _, _, info'', map_of_ok hhdr fun field => (info, field),
    (by decide : startMarkerId ≠ endMarkerId), hemb.findMemberIndex rfl hnd, hmember,
    Or.inl rfl, ⟨hI.1, hcounter⟩, hclean'', hkeeps'⟩

end Member

theorem follows_nil (fuel : Nat) : Follows fuel .nil := by
  intro parentName size depth c last v old _ _ _ _ _ _ α R pre C m p _ _ _ _ _ _
  exact ⟨0, c, C old, p, le_refl 0, Consumes.refl, rfl, rfl, rfl⟩

theorem counterAfter_lt {t : ValueTy} {v : t.Val} (h : Supported t v) (hc : c < 65535) :
    counterAfter t v c < 65535 := by
  match t, v, h with
  | .map .map .string (.scalar _), v, h => exact h.1
  | .scalar _, _, _ | .array _ _, _, _ | .set _, _, _ | .multiArray _ _, _, _ =>
    rw [counterAfter] <;> first | omega | nofun

/-- Where no member is written there is no text. -/
theorem wire_eq_nil : ∀ {ms : Members} {v : ms.Val}, Writable ms v → ms.written v = 0 →
    wire ms v = []
  | .nil, _, _, _ => rfl
  | .leaf _ _ _ rest, (x, xs), hwr, h | .nested _ _ _ _ rest, (x, xs), hwr, h => by
    rw [written] at h
    cases hx : x.get? with
    | none =>
      rw [wire, hx]
      exact wire_eq_nil hwr.2 (by omega)
    | some a =>
      rw [hx] at h
      simp at h
  | .structs _ _ _ _ _ rest, (x, xs), hwr, h => by
    rw [written] at h
    rw [wire]
    exact wire_eq_nil hwr.2 (by omega)

/-- A member in front of others: at 0 the loop stays before it, otherwise it
goes on behind it. -/
theorem follows_cons {α : Type} {R : StructReader α} {parentName : Bytes}
    {size : Bytes → Nat} {c₁ : Nat} {depth : UInt8} {a b target : α}
    {text' : Bytes} {result : Option Nat} (htext : 0 < text.length)
    (hmember : c ≠ 0 → Consumes (cmwLight fuel) .ignore R parentName size m 1 (CountedAt depth c) a p
      (CountedAt depth c₁) b (p + text.length)) (hrest : ∃ rounds c' w q, rounds ≤ text'.length ∧
      Consumes (cmwLight fuel) .ignore R parentName size m rounds (CountedAt depth c₁) b
        (p + text.length) (CountedAt depth c') w q ∧
      Arrives result target (p + text.length + text'.length) c' w q) :
    ∃ rounds c' w q, rounds ≤ (text ++ text').length ∧
      Consumes (cmwLight fuel) .ignore R parentName size m rounds (CountedAt depth c) a p
        (CountedAt depth c') w q ∧
      Arrives (if c = 0 then none else result) target (p + (text ++ text').length) c' w q := by
  rw [length_append, ← add_assoc]
  by_cases hc : c = 0
  · subst hc
    rw [if_pos rfl]
    exact ⟨0, 0, a, p, zero_le _, Consumes.refl, rfl, by omega⟩
  · rw [if_neg hc]
    obtain ⟨rounds, c', w, q, hrnds, hloop, harrives⟩ := hrest
    exact ⟨1 + rounds, c', w, q, by omega, (hmember hc).trans hloop, harrives⟩

theorem follows_leaf (hrest : Follows fuel rest) (name : Identifier)
    (holder : Holder) (ty : ValueTy) : Follows fuel (.leaf name holder ty rest) := by
  rintro parentName size depth c last ⟨x, _⟩ ⟨y, ys⟩ hwr hcov hdist hbal hc hdep
    α R pre C m p hemb hnd hat hm hfuel hlast
  rw [levels] at hdep
  rw [wire] at hat hlast ⊢
  rw [counter]
  cases hx : x.get? with
  | none =>
    rw [hx] at hat hlast
    obtain rfl := hcov.1.eq_of_none hx
    exact hrest parentName size depth c last hwr.2 hcov.2 hdist.2 hbal hc
      (by omega) (hemb.tail_leaf y) hnd hat hm hfuel hlast
  | some a =>
    rw [hx] at hat hlast
    obtain rfl := Slot.eq_holding_of_get? hx
    have hcover := hcov.1.getOrCreate hx (ty.covers_default a)
    rw [length_append, ← add_assoc] at hlast
    refine follows_cons (by rw [length_memberText]; omega) (fun hne => ?_)
      (hrest parentName size depth (counterAfter ty a c) last hwr.2 hcov.2 hdist.2
        hbal (counterAfter_lt (hwr.1 a hx) hc) (by omega)
        (hemb.tail_leaf (Slot.holding holder a)) hnd hat.right hm hfuel hlast)
    obtain ⟨c, rfl⟩ := exists_eq_succ_of_ne_zero hne
    exact consumes_leaf hemb hnd y ys (hwr.1 a hx) hcover hm hfuel hc hat.left

theorem follows_nested {inner : Members} (hinner : Follows fuel inner)
    (hrest : Follows fuel rest) (name : Identifier) (holder : Holder) (typeName : Bytes) :
    Follows fuel (.nested name holder typeName inner rest) := by
  rintro parentName size depth c last ⟨x, xs⟩ ⟨y, ys⟩ hwr hcov hdist hbal hc hdep
    α R pre C m p hemb hnd hat hm hfuel hlast
  rw [levels] at hdep
  rw [balanced] at hbal
  obtain ⟨hbalancedInner, hbalancedRest⟩ := (Bool.and_eq_true _ _).mp hbal
  rw [wire] at hat hlast ⊢
  rw [counter]
  cases hx : x.get? with
  | none =>
    rw [hx] at hat hlast
    obtain rfl := hcov.1.eq_of_none hx
    exact hrest parentName size depth c last hwr.2 hcov.2 hdist.2.2 hbalancedRest hc
      (by omega) (hemb.tail_nested y) hnd hat hm hfuel hlast
  | some a =>
    rw [hx] at hat hlast hbalancedInner
    obtain rfl := Slot.eq_holding_of_get? hx
    obtain ⟨hbalancedInner, hstops⟩ := (Bool.and_eq_true _ _).mp hbalancedInner
    have hcover := hcov.1.getOrCreate hx (inner.covers_default a)
    rw [length_append, ← add_assoc] at hlast
    refine follows_cons (by rw [length_memberText]; omega) (fun hne => ?_)
      (hrest parentName size depth (c - 1) last hwr.2 hcov.2 hdist.2.2
        hbalancedRest (by omega) (by omega) (hemb.tail_nested (Slot.holding holder a)) hnd
        hat.right hm hfuel hlast)
    obtain ⟨c, rfl⟩ := exists_eq_succ_of_ne_zero hne
    refine consumes_nested hinner (last && rest.written xs == 0) hemb hnd y ys
      (hwr.1 a hx).2 (hwr.1 a hx).1 hcover hdist.2.1 hbalancedInner hstops
      (by omega) hm hfuel hc hat.left fun h => ?_
    obtain ⟨hlast', hnone⟩ := (Bool.and_eq_true _ _).mp h
    have hemp := wire_eq_nil hwr.2 (eq_of_beq hnone)
    have hend := hlast hlast'
    rw [hemp, length_nil, add_zero] at hend
    exact hend

theorem follows_structs (hrest : Follows fuel rest)
    (name : Identifier) (holder : Holder) (n : Option Nat) (typeName : Bytes) (inner : Members) :
    Follows fuel (.structs name holder n typeName inner rest) := by
  rintro parentName size depth c last ⟨x, _⟩ ⟨y, _⟩ hwr hcov hdist hbal hc hdep
    α R pre C m p hemb hnd hat hm hfuel hlast
  obtain rfl := hcov.1.eq_of_none hwr.1
  rw [wire] at hat hlast ⊢
  rw [counter, hwr.1]
  exact hrest parentName size depth c last hwr.2 hcov.2 hdist.2.2 hbal hc hdep
    (hemb.tail_structs y) hnd hat hm hfuel hlast

theorem follows (fuel : Nat) : (ms : Members) → Follows fuel ms
  | .nil => follows_nil fuel
  | .leaf name holder ty rest => follows_leaf (follows fuel rest) name holder ty
  | .nested name holder typeName inner rest =>
    follows_nested (follows fuel inner) (follows fuel rest) name holder typeName
  | .structs name holder n typeName inner rest =>
    follows_structs (follows fuel rest) name holder n typeName inner

/-! ## The round trip -/

/-- The message is accepted if it has members. -/
theorem checkHeaderInfo_count {n : Nat} (hn : 0 < n) (hlt : n < 65535)
    (hat : m.At 0 (putInt 4 (toInt16 n) ++ text)) (info : DeserialiserInfo) :
    checkHeaderInfo info m 0 = .ok (info, 0) := by
  have hsize := hat.le_size
  rw [length_append, length_putInt] at hsize
  have hread := reads_getInt (ε := Exception) 4 (toInt16 n) m 0 hat.left
  have hval : (toInt16 n).bmod (256 ^ 4) ≠ 0 := by
    rw [bmod_toInt16]
    intro hzero
    have := (toInt16_natCast hlt).1.mp hzero
    omega
  rw [checkHeaderInfo, position_bind, size_bind, if_neg (by omega),
    bind_of_ok hread, setPosition_bind, if_neg hval]
  rfl

/-- The reader's result for a message with balanced nested structs: the loop
of the root arrives behind the last member, or before one with the counter
at 0. -/
theorem deserialise_serialise {T : StructTy} {v init : T.members.Val}
    {beyond : Nat → Option UInt8} (hwr : Writable T.members v)
    (hpos : 0 < T.members.written v) (hwritten : T.members.written v < 65535)
    (hdist : T.members.DistinctNames) (hlevels : levels T.members ≤ 255)
    (hcov : T.members.Covers v init) (hbal : balanced T.members v true = true)
    (htext : text = putInt 4 (toInt16 (T.members.written v)) ++ wire T.members v)
    (hlen : text.length < 2 ^ 31) (hfuel : text.length < fuel) :
    ∃ info c w q, info.exceptions = [] ∧
      deserialise (cmwLight fuel) .ignore fuel T init ⟨text, beyond⟩ 0 = .ok ((w, info), q) ∧
      Arrives (counter T.members v (T.members.written v)) v text.length c w q := by
  have hat : Memory.At ⟨text, beyond⟩ 0
      (putInt 4 (toInt16 (T.members.written v)) ++ wire T.members v) :=
    htext ▸ Memory.at_data ⟨text, beyond⟩
  have hsize : text.length = 0 + 4 + (wire T.members v).length := by
    rw [htext, length_append, length_putInt, zero_add]
  have hinfo := checkHeaderInfo_count hpos hwritten hat {}
  have hhdr : ∃ field, getHeader (newFieldHeader text.length [] 0 unknownId (-1))
      ⟨text, beyond⟩ 0 = .ok (field, 0) ∧ field.hierarchyDepth = 0 ∧ field.fieldName = [] :=
    ⟨_, rfl, rfl, rfl⟩
  obtain ⟨field, hhdr, hdep, hname⟩ := hhdr
  obtain ⟨info, c, w, q, hread, harrives, hclean, -⟩ := readStruct_follows
    (follows fuel T.members) T.typeName (newFieldHeader text.length rootName 0 unknownId (-1)) true
    hwr hcov hdist hbal hwritten
    (show (0 : UInt8).toNat + levels T.members ≤ 255 by rw [UInt8.toNat_zero]; omega) hhdr hdep
    (fun _ => hname) hat hlen hfuel (fun _ => hsize.symm) (Or.inl rfl)
    (clean_empty fun _ => 0)
  refine ⟨info, c, w, q, hclean.exceptions, ?_, hsize ▸ harrives⟩
  rw [deserialise, readRoot_eq hinfo rfl]
  exact hread

/-- A nested struct, and a map behind everything else. -/
def mapLast : StructTy where
  typeName := str "MapLast"
  members :=
    .leaf ⟨str "a", isIdentifier_a⟩ .direct (.array none (.int .w16)) <|
    .nested ⟨str "n", by decide⟩ .pointer (str "Inner")
      (.leaf ⟨str "s", by decide⟩ .direct (.scalar .string) .nil) <|
    .leaf ⟨str "m", isIdentifier_m⟩ .direct (.map .map .string (.scalar .bool)) .nil

def someMapLast : mapLast.members.Val :=
  ([Signed.ofInt .w16 (-2)], some (str "x", ()), SortedMap.ofEntries [(str "k", true)], ())

/-- The same map in front of a number. -/
def mapFirst : StructTy where
  typeName := str "MapFirst"
  members :=
    .leaf ⟨str "m", isIdentifier_m⟩ .direct (.map .map .string (.scalar .bool)) <|
    .leaf ⟨str "a", isIdentifier_a⟩ .direct (.scalar (.int .w32)) .nil

/-- No member, at any depth, is a map. -/
def NoMaps : Members → Prop
  | .nil => True
  | .leaf _ _ ty rest => height ty = 1 ∧ NoMaps rest
  | .nested _ _ _ inner rest => NoMaps inner ∧ NoMaps rest
  | .structs _ _ _ _ _ rest => NoMaps rest

theorem counterAfter_of_height {t : ValueTy} (h : height t = 1) (v : t.Val) (c : Nat) :
    counterAfter t v c = c - 1 := by
  cases t with
  | map kind key value => cases h
  | _ => rfl

/-- A member in front of others that count down. -/
theorem counter_cons {α : Type} {o : Option α} {f : Nat → Option Nat} {w : Nat}
    (hf : ∀ {c}, w ≤ c → f c = some (c - w)) (hle : (if o.isSome then 1 else 0) + w ≤ c) :
    o.elim (f c) (fun _ => if c = 0 then none else f (c - 1)) =
      some (c - ((if o.isSome then 1 else 0) + w)) := by
  cases o with
  | none =>
    rw [isSome_none, if_neg Bool.false_ne_true, zero_add] at hle ⊢
    exact hf hle
  | some a =>
    rw [isSome_some, if_pos rfl] at hle ⊢
    rw [elim_some, if_neg (by omega), hf (by omega), Nat.sub_sub]

/-- Without maps the counter counts the members. -/
theorem counter_of_noMaps : ∀ {ms : Members} {v : ms.Val} {c : Nat}, NoMaps ms →
    ms.written v ≤ c → counter ms v c = some (c - ms.written v)
  | .nil, _, _, _, _ => rfl
  | .leaf _ _ ty rest, (x, xs), c, hnomaps, hle => by
    rw [written] at hle ⊢
    simp only [counter, counterAfter_of_height hnomaps.1]
    rw [← counter_cons (counter_of_noMaps hnomaps.2) hle]
    cases x.get? <;> rfl
  | .nested _ _ _ _ rest, (x, xs), c, hnomaps, hle => by
    rw [written] at hle ⊢
    rw [counter, ← counter_cons (counter_of_noMaps hnomaps.2) hle]
    cases x.get? <;> rfl
  | .structs _ _ _ _ _ rest, (x, xs), c, hnomaps, hle => by
    have hrest : NoMaps rest := hnomaps
    rw [written] at hle ⊢
    rw [counter, ← counter_cons (counter_of_noMaps hrest) hle]
    cases x.get? <;> rfl

theorem balanced_of_noMaps : ∀ {ms : Members} (v : ms.Val) (last : Bool), NoMaps ms →
    balanced ms v last = true
  | .nil, _, _, _ => rfl
  | .leaf _ _ _ rest, (_, xs), last, hnomaps => balanced_of_noMaps xs last hnomaps.2
  | .nested _ _ _ inner rest, (x, xs), last, hnomaps => by
    rw [balanced, balanced_of_noMaps xs last hnomaps.2, Bool.and_true, Option.all_eq_true]
    intro a _
    rw [balanced_of_noMaps a _ hnomaps.1, counter_of_noMaps hnomaps.1 (le_refl _), Nat.sub_self]
    rfl
  | .structs _ _ _ _ _ rest, (_, xs), last, hnomaps => balanced_of_noMaps xs last hnomaps

def noMap : StructTy where
  typeName := str "NoMap"
  members := .leaf ⟨str "a", isIdentifier_a⟩ .direct (.array none (.int .w16)) .nil

end OpenCmw.Io.CmwLight
