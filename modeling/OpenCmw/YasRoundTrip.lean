import OpenCmw.YasSerialiser

/-!
# YaS messages are read back

Three layers. `Yas.reads_get` is the round trip of the plain types, by
induction over the type since maps nest. `Yas.wire` says what the writer
leaves in the buffer once all patches are done, with every offset and size
in place; `serialise_eq` proves that the writer writes it. The reading
loop is then followed through that text, member by member and struct by
struct.
-/

namespace OpenCmw.Io.Yas

open Except (ok)
open Signed (ofInt)
open List Nat ByteReader

/-! ## Plain types -/

/-- The one dimension of a vector or a set. -/
def oneDim (n : Nat) : List.Vector (Signed .w32) 1 := ⟨[toWire n], rfl⟩

theorem reads_oneDim (n : Nat) : Reads (getDims 1) (putDims [toWire n]) (oneDim n) :=
  reads_getDims (oneDim n) (by
    rw [oneDim, putDims, putArray, length_append, length_putInt, flatMap_singleton,
      putScalar, length_putInt]
    decide)

variable {n : Nat} {abi : Abi} {buf : Bytes} {field : Field} {id : UInt8} {name : Bytes}
  {fuel : Nat} {check : ProtocolCheck} {rest : Members}

theorem reads_getCount (h : n < 2 ^ 31) : Reads getCount (putInt 4 n) n := by
  have hread := (reads_length h).map fun i : Int => (i % 2 ^ 32).toNat
  have hval : ((n : Int) % 2 ^ 32).toNat = n := by omega
  rwa [hval] at hread

/-- Values that are written one behind the other are assigned to the keys
of their entries. -/
theorem reads_getEntries {K V : Type} [LinearOrder K] {r : Nat → Get V} :
    ∀ {entries : List (K × V)} {texts : List Bytes} (i : Nat) (m : SortedMap K V),
      List.Forall₂ (fun e text => ∀ i, Reads (r i) text e.2) entries texts →
      Reads (getEntries r i entries.length (entries.map (·.1)) m) texts.flatten
        (SortedMap.assignAll entries m)
  | [], _, _, _, .nil => Reads.pure _
  | _ :: _, _, i, _, .cons hfirst hrest => (hfirst i).bind (reads_getEntries (i + 1) _ hrest)

theorem forall₂_of_mapM_eq_ok {ε α β : Type} {f : α → Except ε β} :
    ∀ {as : List α} {bs : List β}, as.mapM f = .ok bs →
      List.Forall₂ (fun a b => f a = .ok b ∧ b ∈ bs) as bs
  | [], bs, h => by
    obtain rfl : [] = bs := ok.inj h
    exact .nil
  | a :: as, bs, h => by
    rw [mapM_cons] at h
    obtain ⟨b, hb, h⟩ := bind_eq_ok.mp h
    obtain ⟨bs', hbs, h⟩ := bind_eq_ok.mp h
    obtain rfl : b :: bs' = bs := ok.inj h
    exact .cons ⟨hb, mem_cons_self ..⟩ ((forall₂_of_mapM_eq_ok hbs).imp
      fun _ _ h => ⟨h.1, mem_cons_of_mem _ h.2⟩)

theorem reads_array {n : Option Nat} {s : Scalar} {v : Seq n s.Val} (field : Field)
    (old : Seq n s.Val)
    (h : (putDims [toWire v.toList.length] ++ putArray v.toList).length < 2 ^ 31) :
    Reads (get (.array n s) field old)
      (putDims [toWire v.toList.length] ++ putArray v.toList) v := by
  rw [length_append] at h
  have hsize := length_le_putArray v.toList
  exact (reads_oneDim _).bind (reads_getArrayInto (by omega) (by rw [sizeMax]; omega))

theorem reads_set {s : Scalar} {v : SortedMap s.Val Unit} (field : Field)
    (old : SortedMap s.Val Unit)
    (h : (putDims [toWire v.keys.length] ++ putArray v.keys).length < 2 ^ 31) :
    Reads (get (.set s) field old) (putDims [toWire v.keys.length] ++ putArray v.keys) v := by
  rw [length_append] at h
  have hsize := length_le_putArray v.keys
  have hreq : toSize (oneDim v.keys.length).head.val = v.keys.length := by
    show toSize (toWire v.keys.length).val = v.keys.length
    rw [val_toWire (by omega), toSize_natCast]
  have hdata := reads_getArray (toSize (oneDim v.keys.length).head.val)
    (by omega) hreq.ge
  have hset := hdata.map fun data => SortedMap.ofEntries (data.map fun v => (v, ()))
  rw [SortedMap.ofEntries_keys] at hset
  exact (reads_oneDim v.keys.length).bind hset

/-- The text of a map: the keys, then the values, each group behind a type
id and the number of entries. -/
theorem put_map_eq_ok {kind : MapKind} {key : Scalar} {value : ValueTy}
    {v : SortedMap key.Val value.Val} {text : Bytes}
    (h : put abi (.map kind key value) v = .ok text) :
    ∃ values, (abi.order kind v).mapM (fun e => put abi value e.2) = .ok values ∧
      text = putInt 4 v.entries.length ++ ([scalarId key] ++ (putInt 4 v.entries.length ++
        (((abi.order kind v).map (·.1)).flatMap (putScalar key) ++ match value.scalar? with
          | some s => [scalarId s] ++ (putInt 4 v.entries.length ++ values.flatten)
          | none => [otherId] ++ (putString (typeName abi value) ++ (putString [] ++
              (putInt 4 v.entries.length ++ values.flatten)))))) := by
  rw [put] at h
  by_cases hfits : reserveFits v.entries.length = true
  · rw [if_pos hfits] at h
    obtain ⟨values, hvals, h⟩ := bind_eq_ok.mp h
    refine ⟨values, hvals, ?_⟩
    cases hscalar : value.scalar? with
    | none | some s =>
      rw [hscalar] at h
      cases h
      simp only [append_assoc, flatMap_map]
  · rw [if_neg hfits] at h
    cases h

theorem reads_map {kind : MapKind} {key : Scalar} {value : ValueTy}
    {v old : SortedMap key.Val value.Val} {text : Bytes} (field : Field)
    (hval : ∀ {a : value.Val} {text : Bytes} (field : Field), put abi value a = .ok text →
      text.length < 2 ^ 31 → Reads (get value field value.default) text a)
    (hput : put abi (.map kind key value) v = .ok text) (hlen : text.length < 2 ^ 31)
    (hcov : (ValueTy.map kind key value).Covers v old) :
    Reads (get (.map kind key value) field old) text v := by
  obtain ⟨values, hvals, rfl⟩ := put_map_eq_ok hput
  have hperm := abi.order_perm kind v
  have hcnt := hperm.length_eq
  have hcountKeys : ((abi.order kind v).map (·.1)).length = v.entries.length := by
    rw [length_map, hcnt]
  have hkeysLength := length_le_flatMap (putScalar_pos key) ((abi.order kind v).map (·.1))
  simp only [length_append] at hlen
  have hsize : v.entries.length < 2 ^ 31 := by omega
  have hvaluesLength : values.flatten.length < 2 ^ 31 := by
    cases hscalar : value.scalar? with
    | none | some s => simp only [hscalar, length_append] at hlen; omega
  have hkeys := reads_scalars ((abi.order kind v).map (·.1)) (by omega)
  rw [hcountKeys] at hkeys
  have hents : ∀ (f : Nat → Field) (m : SortedMap key.Val value.Val),
      (∀ k ∈ m.keys, k ∈ v.keys) →
      Reads (getEntries (fun i => get value (f i) value.default) 0 v.entries.length
        ((abi.order kind v).map (·.1)) m) values.flatten v := by
    intro f m hm
    have hall := (forall₂_of_mapM_eq_ok hvals).imp fun e text h i =>
      hval (f i) h.1
        (lt_of_le_of_lt (sublist_flatten_of_mem h.2).length_le hvaluesLength)
    have hread := reads_getEntries 0 m hall
    rwa [hcnt, SortedMap.assignAll_of_perm hperm hm] at hread
  rw [get]
  refine (reads_getCount hsize).bind ((reads_getByte _).bind ?_)
  rw [if_neg (not_not.mpr rfl)]
  refine (reads_getCount hsize).bind ?_
  rw [if_neg (not_not.mpr rfl)]
  refine hkeys.bind ?_
  cases hscalar : value.scalar? with
  | some s =>
    refine (reads_getByte _).bind ?_
    dsimp only
    rw [if_neg (not_not.mpr rfl)]
    refine (reads_getCount hsize).bind ?_
    rw [if_neg (not_not.mpr rfl)]
    exact hents (fun _ => field) ∅ fun k hk => absurd hk not_mem_nil
  | none =>
    simp only [hscalar, length_append, length_singleton, length_putInt] at hlen
    refine (reads_getByte _).bind ?_
    rw [if_pos rfl]
    refine (reads_getString (by omega)).bind ((reads_getString (by decide)).bind ?_)
    refine (reads_length hsize).bind ?_
    rw [toSize_natCast]
    exact hents (entryField field) old hcov

/-- Every plain value that is written in fewer than 2^31 bytes is read
back. -/
theorem reads_get (abi : Abi) (t : ValueTy) : ∀ {v old : t.Val} {text : Bytes} (field : Field),
    put abi t v = .ok text → text.length < 2 ^ 31 → t.Covers v old →
      Reads (get t field old) text v := by
  induction t with
  | scalar s =>
    intro v old text field hput hlen _
    cases hput
    exact reads_getScalar hlen
  | array n s =>
    intro v old text field hput hlen _
    cases hput
    exact reads_array field old hlen
  | set s =>
    intro v old text field hput hlen _
    cases hput
    rw [append_assoc] at hlen ⊢
    exact reads_set field old hlen
  | multiArray s n =>
    intro v old text field hput hlen _
    cases hput
    exact reads_getMultiArray hlen
  | map kind key value ih =>
    intro v old text field hput hlen hcov
    exact reads_map field
      (fun field hput hlen => ih field hput hlen (value.covers_default _)) hput hlen hcov

/-! ## What the writer leaves in the buffer -/

/-- A field header in its final form. -/
def header (id : UInt8) (dataSize : Nat) (name : Bytes) : Bytes :=
  [id] ++ (putInt 4 (name.length + 14 : Nat) ++ (putInt 4 dataSize ++ putString name))

@[simp] theorem length_header (id : UInt8) (dataSize : Nat) (name : Bytes) :
    (header id dataSize name).length = name.length + 14 := by
  simp only [header, length_append, length_singleton, length_putInt, length_putString]
  omega

/-- A field with its data. -/
def fieldText (id : UInt8) (name data : Bytes) : Bytes := header id data.length name ++ data

/-- A struct whose members are written as `body`. -/
def structText (name body : Bytes) : Bytes :=
  fieldText startMarkerId name (body ++ fieldText endMarkerId name [])

/-- The members of a struct, each with its final header. -/
def wire (abi : Abi) : (ms : Members) → ms.Val → Put
  | .nil, _ => .ok []
  | .leaf name _ ty rest, (x, xs) =>
    match x.get? with
    | none => wire abi rest xs
    | some a => do
      let data ← put abi ty a
      let text ← wire abi rest xs
      .ok (fieldText (typeId ty) (sanitizeFieldName name.bytes) data ++ text)
  | .nested name _ _ inner rest, (x, xs) =>
    match x.get? with
    | none => wire abi rest xs
    | some a => do
      let body ← wire abi inner a
      let text ← wire abi rest xs
      .ok (structText (sanitizeFieldName name.bytes) body ++ text)
  | .structs _ _ _ _ _ rest, (x, xs) =>
    match x.get? with
    | none => wire abi rest xs
    | some _ => .error (.thrown (.protocol .notImplemented))

theorem patch_at (pre post : Bytes) {j : Int} {pos : Nat} (hbuf : buf = pre ++ (putInt 4 j ++ post))
    (hpos : pos = pre.length) (i : Int) : patch buf pos i = pre ++ (putInt 4 i ++ post) := by
  rw [hbuf, hpos, patch, take_left, append_assoc]
  congr 2
  rw [← drop_drop, drop_left]
  exact drop_left' (length_putInt 4 j)

/-- `FieldHeaderWriter<YaS>::put` appends a header in final form and the
data. -/
theorem putField_of_ok {data : Bytes} (f : Bytes → Put) (h : ∀ buf, f buf = .ok (buf ++ data)) :
    putField buf field id f = .ok (buf ++ fieldText id field.fieldName data, buf.length + 5) := by
  have hoffset : ((buf ++ [id] ++ putInt 4 (-1) ++ putInt 4 (-1) ++
      putString field.fieldName).length : Int) - buf.length
      = ((field.fieldName.length + 14 : Nat) : Int) := by
    simp only [length_append, length_singleton, length_putInt, length_putString]
    omega
  rw [putField]
  -- the offset is in place before the data is written, the size only behind it
  rw [patch_at (buf ++ [id]) (putInt 4 (-1) ++ putString field.fieldName) (j := -1)
    (by simp only [append_assoc]) rfl, h, ok_bind, hoffset,
    patch_at (buf ++ [id] ++ putInt 4 (field.fieldName.length + 14 : Nat))
      (putString field.fieldName ++ data) (j := -1) (by simp only [append_assoc])
      (by simp only [length_append, length_putInt])]
  have hsize : ((buf ++ [id] ++ (putInt 4 (field.fieldName.length + 14 : Nat) ++
      (putInt 4 (-1) ++ putString field.fieldName)) ++ data).length : Int) -
      (buf ++ [id] ++ putInt 4 (-1) ++ putInt 4 (-1) ++ putString field.fieldName).length
      = data.length := by
    simp only [length_append, length_putInt]
    omega
  rw [hsize]
  show ok (_, (buf ++ [id] ++ putInt 4 (-1)).length) = _
  simp only [fieldText, header, append_assoc, length_append, length_singleton, length_putInt]

theorem putField_of_error (f : Bytes → Put)
    {e : Halt Exception} (h : ∀ buf, f buf = .error e) : putField buf field id f = .error e := by
  rw [putField]
  rw [h]
  rfl

theorem putLeaf_eq (buf : Bytes) (field : Field) (t : ValueTy) (v : t.Val) :
    (yas abi).putLeaf buf field t v =
      (fun data => buf ++ fieldText (typeId t) field.fieldName data) <$> put abi t v := by
  have hfield : (yas abi).putLeaf buf field t v =
      (·.1) <$> putField buf field (typeId t) fun buf => (buf ++ ·) <$> put abi t v := rfl
  rw [hfield]
  cases put abi t v with
  | error e =>
    rw [putField_of_error (fun buf => (buf ++ ·) <$> Except.error e) fun _ => rfl]
    rfl
  | ok data =>
    rw [putField_of_ok (fun buf => (buf ++ ·) <$> ok data) fun _ => rfl]
    rfl

theorem updateSize_append (text : Bytes) :
    updateSize (buf ++ fieldText startMarkerId name [] ++ text) (buf.length + 5)
      (buf ++ fieldText startMarkerId name []).length = buf ++ fieldText startMarkerId name text := by
  have hdata : ((buf ++ fieldText startMarkerId name [] ++ text).length : Int)
      - (buf ++ fieldText startMarkerId name []).length = text.length := by
    rw [length_append]
    omega
  rw [updateSize, hdata, patch_at (buf ++ ([startMarkerId] ++ putInt 4 (name.length + 14 : Nat)))
      (putString name ++ text) (j := (0 : Nat))
      (by simp only [fieldText, header, append_assoc, append_nil, length_nil])
      (by simp only [length_append, length_singleton, length_putInt]), fieldText, header]
  simp only [append_assoc]

theorem putStart_eq (abi : Abi) (buf : Bytes) (field : Field) : (yas abi).putStart buf field =
    .ok (buf ++ fieldText startMarkerId field.fieldName [], buf.length + 5) :=
  putField_of_ok _ fun buf => by rw [append_nil]

/-- A struct in the buffer, from its members. -/
theorem writeStruct_of_ok {body : Bytes} {f : Bytes → Put} (h : ∀ buf, f buf = .ok (buf ++ body)) :
    writeStruct (yas abi) field f buf = .ok (buf ++ structText field.fieldName body) := by
  have hend : ∀ buf, (yas abi).putEnd buf field
      = .ok (buf ++ fieldText endMarkerId field.fieldName []) := by
    intro buf
    show (·.1) <$> putField buf field endMarkerId .ok = _
    rw [putField_of_ok .ok fun buf => by rw [append_nil]]
    rfl
  rw [writeStruct, putStart_eq, ok_bind]
  dsimp only
  rw [h, ok_bind, hend, ok_bind]
  show ok (updateSize _ (buf.length + 5) _) = _
  rw [append_assoc _ body, updateSize_append]
  rfl

theorem writeStruct_of_error {f : Bytes → Put} {e : Halt Exception} (h : ∀ buf, f buf = .error e) :
    writeStruct (yas abi) field f buf = .error e := by
  rw [writeStruct, putStart_eq, ok_bind]
  dsimp only
  rw [h, error_bind]

theorem map_append_append (text : Bytes) (x : Put) :
    (buf ++ text ++ ·) <$> x = (buf ++ ·) <$> (do let rest ← x; .ok (text ++ rest)) := by
  cases x with
  | error e => rfl
  | ok rest => exact congrArg ok (append_assoc ..)

/-- The writer appends the members in their final form, at any depth. -/
theorem serialise_eq (abi : Abi) : ∀ (ms : Members) (v : ms.Val) (depth : UInt8) (buf : Bytes),
    ms.serialise (yas abi) v depth buf = (buf ++ ·) <$> wire abi ms v
  | .nil, _, _, buf => by
    show ok buf = ok (buf ++ [])
    rw [append_nil]
  | .leaf name _ ty rest, (x, xs), depth, buf => by
    rw [Members.serialise, wire]
    cases x.get? with
    | none => exact serialise_eq abi rest xs depth buf
    | some a =>
      dsimp only
      rw [putLeaf_eq]
      cases put abi ty a with
      | error e => rfl
      | ok data =>
        show rest.serialise (yas abi) xs depth _ = _
        rw [serialise_eq abi rest xs depth, ok_bind, map_append_append]
        rfl
  | .nested name _ _ inner rest, (x, xs), depth, buf => by
    rw [Members.serialise, wire]
    cases x.get? with
    | none => exact serialise_eq abi rest xs depth buf
    | some a =>
      have hinner := serialise_eq abi inner a (depth + 1)
      dsimp only
      cases hwire : wire abi inner a with
      | error e =>
        rw [hwire] at hinner
        rw [writeStruct_of_error hinner]
        rfl
      | ok body =>
        rw [hwire] at hinner
        rw [writeStruct_of_ok hinner]
        rw [ok_bind, serialise_eq abi rest xs depth, ok_bind, map_append_append]
        rfl
  | .structs name _ _ _ inner rest, (x, xs), depth, buf => by
    rw [Members.serialise, wire]
    cases x.get? with
    | none => exact serialise_eq abi rest xs depth buf
    | some as => rfl

/-- A message: the header of the protocol and the struct. -/
theorem serialise_eq_ok_iff {T : StructTy} {v : T.members.Val} {text : Bytes} :
    serialise (yas abi) T v = .ok text ↔ ∃ body, wire abi T.members v = .ok body ∧
      text = headerInfo ++ structText (sanitizeFieldName T.typeName) body := by
  have hbody := serialise_eq abi T.members v 0
  rw [serialise, writeRoot]
  cases hwire : wire abi T.members v with
  | error e =>
    rw [hwire] at hbody
    rw [show T.members.serialise (yas abi) v (newFieldHeader _ _ 0 _ _).hierarchyDepth
      = T.members.serialise (yas abi) v 0 from rfl, writeStruct_of_error hbody]
    simp
  | ok body =>
    rw [hwire] at hbody
    rw [show T.members.serialise (yas abi) v (newFieldHeader _ _ 0 _ _).hierarchyDepth
      = T.members.serialise (yas abi) v 0 from rfl, writeStruct_of_ok hbody]
    constructor
    · intro h
      exact ⟨body, rfl, (ok.inj h).symm⟩
    · rintro ⟨_, hbody', rfl⟩
      rw [ok.inj hbody']
      rfl

/-! ## Following the reader through the text -/

theorem getMetaInfo_at (check : ProtocolCheck) (m : Memory) (p : Nat) :
    getMetaInfo check p m p = .ok ((), p) := by
  have hstring : getMetaString p m p = .ok ((), p) := by
    rw [getMetaString, position_bind, if_pos rfl]
    rfl
  have hmodifier : (do
      getMetaString p
      getMetaString p
      getMetaString p
      let position ← ByteReader.position
      if position = p then
        pure ()
      else
        let _ ← getByte
        pure () : Get Unit) m p = .ok ((), p) := by
    rw [bind_of_ok hstring, bind_of_ok hstring, bind_of_ok hstring, position_bind, if_pos rfl]
    rfl
  cases check with
  | ignore => rfl
  | lenient => exact hmodifier
  | always => exact hmodifier

/-- What `FieldHeaderReader<YaS>::get` makes of a header. -/
def headerField (field : Field) (p : Nat) (id : UInt8) (dataSize : Nat) (name : Bytes) : Field :=
  { field with
    headerStart := p
    intDataType := id
    fieldName := name
    dataStartPosition := p + (name.length + 14)
    dataEndPosition := p + (name.length + 14) + dataSize }

theorem getHeader_header {m : Memory} {p : Nat} {dataSize : Nat}
    (hat : m.At p (header id dataSize name)) (hm : m.size < 2 ^ 31) (hsize : dataSize < 2 ^ 31)
    (check : ProtocolCheck) (info : DeserialiserInfo) (field : Field) :
    getHeader check info field m p =
      .ok ((info, headerField field p id dataSize name), p + (name.length + 14)) := by
  have hlen := hat.le_size
  rw [length_header] at hlen
  rw [header] at hat
  have hname : (putString name).length < 2 ^ 31 := by
    rw [length_putString]
    omega
  have hstart : toSize ((p : Int) + ((name.length + 14 : Nat) : Int)) = p + (name.length + 14) := by
    rw [← Int.natCast_add, toSize_natCast]
  have hend : toSize ((p : Int) + ((name.length + 14 : Nat) : Int) + (dataSize : Int))
      = p + (name.length + 14) + dataSize := by
    rw [← Int.natCast_add, ← Int.natCast_add, toSize_natCast]
  have hpos : p + [id].length + (putInt 4 (name.length + 14 : Nat)).length +
      (putInt 4 dataSize).length + (putString name).length = p + (name.length + 14) := by
    rw [length_singleton, length_putInt, length_putInt, length_putString]
    omega
  rw [getHeader, position_bind, bind_of_ok (reads_getByte id m p hat.left),
    bind_of_ok (reads_length (by omega) m _ hat.right.left),
    bind_of_ok (reads_length hsize m _ hat.right.right.left),
    bind_of_ok (reads_getString hname m _ hat.right.right.right), hpos]
  rw [hstart, hend, bind_of_ok (getMetaInfo_at check m _)]
  rfl

theorem length_fieldText (id : UInt8) (name data : Bytes) :
    (fieldText id name data).length = name.length + 14 + data.length := by
  rw [fieldText, length_append, length_header]

theorem length_structText (name body : Bytes) :
    (structText name body).length = name.length + 14 + (body.length + (name.length + 14)) := by
  rw [structText, length_fieldText, length_append, length_fieldText, length_nil, add_zero]

theorem typeId_ne_endMarkerId (t : ValueTy) : typeId t ≠ endMarkerId := by
  have hscalar : ∀ s, scalarId s ≠ endMarkerId ∧ arrayTypeOffset + scalarId s ≠ endMarkerId := by
    rintro (_ | (_ | _ | _ | _) | _) <;> decide
  match t with
  | .scalar s => exact (hscalar s).1
  | .array none s => exact (hscalar s).2
  | .array (some _) _ => exact show unknownId ≠ endMarkerId by decide
  | .set s => exact (hscalar s).2
  | .multiArray s _ => exact (hscalar s).2
  | .map _ _ _ => exact show (203 : UInt8) ≠ endMarkerId by decide

/-- The loop reads the members `ms` back wherever they stand, as part of
whatever struct. -/
def ReadsBack (abi : Abi) (fuel : Nat) (check : ProtocolCheck) (ms : Members) : Prop :=
  ∀ (depth : UInt8) {size : Bytes → Nat} {v old : ms.Val} {text : Bytes},
    wire abi ms v = .ok text → ms.Covers v old → ms.DistinctNames → ms.Sized rootName size →
    ∀ {α : Type} {R : StructReader α} {pre : List Bytes} {C : ms.Val → α} {parentName : Bytes}
      {m : Memory} {p : Nat}, Embeds (yas abi) fuel check R pre ms C →
      R.names.Nodup → R.names.length = size parentName → m.At p text → m.size < 2 ^ 31 →
      m.size < fuel → depth.toNat + ms.depth < 256 → ∃ rounds ≤ text.length,
        Consumes (yas abi) check R parentName size m rounds (·.hierarchyDepth = depth) (C old) p
          (·.hierarchyDepth = depth) (C v) (p + text.length)

/-- A struct whose members are read back is read back. -/
theorem readStruct_structText {ms : Members}
    (hms : ReadsBack abi fuel check ms) (typeName : Bytes) (parent : Field) {size : Bytes → Nat}
    {v old : ms.Val} {body : Bytes} {info : DeserialiserInfo} {m : Memory} {p : Nat}
    (hwire : wire abi ms v = .ok body) (hcov : ms.Covers v old) (hdist : ms.DistinctNames)
    (hsized : ms.Sized rootName size) (hlen : ms.names.length = size parent.fieldName)
    (hat : m.At p (structText name body)) (hm : m.size < 2 ^ 31) (hfuel : m.size < fuel)
    (hname : parent.hierarchyDepth ≠ 0 ∨ name = typeName)
    (hdep : parent.hierarchyDepth.toNat + ms.depth < 256) (hclean : Clean size info) :
    ∃ info', readStruct (yas abi) check (ms.reader (yas abi) fuel check typeName) fuel parent old
        info m p = .ok ((v, info'), p + (structText name body).length) ∧
      Clean size info' ∧ KeepsBitFields info info' := by
  have htext := hat.le_size
  rw [length_structText] at htext ⊢
  rw [structText, fieldText] at hat
  have hbody := hat.right.left
  have hend := hat.right.right
  rw [length_header] at hbody hend
  rw [fieldText, append_nil] at hend
  have hsize : (body ++ fieldText endMarkerId name []).length = body.length + (name.length + 14) := by
    rw [length_append, length_fieldText, length_nil, add_zero]
  obtain ⟨hcleanInit, htr, hkeepsInit⟩ := initSetFields_spec check _ _ hclean fun _ => hlen
  obtain ⟨rounds, hrnds, hloop⟩ :=
    hms parent.hierarchyDepth hwire hcov hdist hsized (embeds_reader (yas abi) fuel check typeName ms)
      hdist.nodup hlen hbody hm hfuel hdep
  have hhdr := getHeader_header hat.left hm (by omega) check
    (initSetFields check parent.fieldName ms.names.length info)
    (newFieldHeader m.size [] parent.hierarchyDepth unknownId (-1))
  have hendHeader := getHeader_header hend hm (by decide) check
  have hexp : parent.hierarchyDepth = 0 → name = typeName ∨ name = [] :=
    fun hzero => Or.inl (hname.resolve_left (not_not.mpr hzero))
  have hr : p + (name.length + 14) + body.length + (name.length + 14)
      = p + (name.length + 14 + (body.length + (name.length + 14))) := by omega
  rw [readStruct_eq (R := ms.reader (yas abi) fuel check typeName) hhdr hexp rfl]
  obtain ⟨info', hrun, hclean', hkeeps⟩ := hloop.readFields_eq
    (show (headerField (newFieldHeader m.size [] parent.hierarchyDepth unknownId (-1)) p
      startMarkerId (body ++ fieldText endMarkerId name []).length name).hierarchyDepth = _ from rfl)
    hcleanInit htr (show rounds < fuel by omega) fun field' info' _ _ =>
      (readFields_end (by omega) (hendHeader info' field') rfl).trans
        (congrArg (fun r => ok ((v, info'), r)) hr)
  exact ⟨info', hrun, hclean', hkeepsInit.trans hkeeps⟩

theorem readsBack_nil (abi : Abi) (fuel : Nat) (check : ProtocolCheck) :
    ReadsBack abi fuel check .nil := by
  intro depth size v old text hwire _ _ _ α R pre C parentName m p _ _ _ _ _ _ _
  obtain rfl : [] = text := ok.inj hwire
  exact ⟨0, le_refl 0, Consumes.refl⟩

theorem readsBack_leaf
    (hrest : ReadsBack abi fuel check rest) (name : Identifier) (holder : Holder) (ty : ValueTy) :
    ReadsBack abi fuel check (.leaf name holder ty rest) := by
  rintro depth _ ⟨x, _⟩ ⟨y, ys⟩ _ hwire hcov hdist hsized α R pre C _ m p
    hemb hnd hnames hat hm hfuel hdep
  rw [wire] at hwire
  cases hx : x.get? with
  | none =>
    rw [hx] at hwire
    obtain rfl := hcov.1.eq_of_none hx
    exact hrest depth hwire hcov.2 hdist.2 hsized (hemb.tail_leaf y) hnd hnames hat hm
      hfuel hdep
  | some a =>
    rw [hx] at hwire
    obtain ⟨data, hdata, hwire⟩ := bind_eq_ok.mp hwire
    obtain ⟨_, htext, hwire⟩ := bind_eq_ok.mp hwire
    cases hwire
    obtain rfl := Slot.eq_holding_of_get? hx
    have hsize := hat.le_size
    rw [length_append, length_fieldText] at hsize
    have hfield := hat.left
    rw [fieldText] at hfield
    have hstart := hfield.right
    rw [length_header] at hstart
    obtain ⟨rounds, hrnds, hloop⟩ := hrest depth htext hcov.2 hdist.2 hsized
      (hemb.tail_leaf (Slot.holding holder a)) hnd hnames hat.right hm hfuel hdep
    refine ⟨1 + rounds, ?_, ?_⟩
    · rw [length_append, length_fieldText]
      omega
    rw [length_append, ← add_assoc]
    refine Consumes.trans ?_ hloop
    refine Consumes.member pre.length (by omega) fun field info hI hclean htr => ?_
    have hhdr := getHeader_header hfield.left hm (by omega) check info field
    have hread := reads_get abi ty
      (headerField field p (typeId ty) data.length (sanitizeFieldName name.bytes)) hdata (by omega)
      (hcov.1.getOrCreate hx (ty.covers_default a)) m _ hstart
    obtain ⟨info', hmember, hclean', hkeeps⟩ := hemb.readPlain rfl (·, ys) y field.subfields
      (fun _ => rfl) (fun _ => hnames) hclean htr (Or.inl rfl) (ByteReader.map_of_ok hread _)
    rw [length_fieldText, ← add_assoc]
    exact ⟨_, _, _, info', hhdr, typeId_ne_endMarkerId ty, hemb.findMemberIndex rfl hnd,
      hmember, Or.inr rfl, hI, hclean', hkeeps⟩

theorem readsBack_nested {inner : Members}
    (hinner : ReadsBack abi fuel check inner) (hrest : ReadsBack abi fuel check rest)
    (name : Identifier) (holder : Holder) (typeName : Bytes) :
    ReadsBack abi fuel check (.nested name holder typeName inner rest) := by
  rintro depth _ ⟨x, _⟩ ⟨y, ys⟩ _ hwire hcov hdist hsized α R pre C _ m p
    hemb hnd hnames hat hm hfuel hdep
  rw [Members.depth] at hdep
  rw [wire] at hwire
  cases hx : x.get? with
  | none =>
    rw [hx] at hwire
    obtain rfl := hcov.1.eq_of_none hx
    exact hrest depth hwire hcov.2 hdist.2.2 hsized.2.2 (hemb.tail_nested y) hnd hnames hat
      hm hfuel (by omega)
  | some a =>
    rw [hx] at hwire
    obtain ⟨body, hbody, hwire⟩ := bind_eq_ok.mp hwire
    obtain ⟨_, htext, hwire⟩ := bind_eq_ok.mp hwire
    cases hwire
    obtain rfl := Slot.eq_holding_of_get? hx
    have hsize := hat.le_size
    rw [length_append, length_structText] at hsize
    have hhdr := hat.left
    rw [structText, fieldText] at hhdr
    have hstart : startMarkerId ≠ endMarkerId := by decide
    obtain ⟨rounds, hrnds, hloop⟩ := hrest depth htext hcov.2 hdist.2.2
      hsized.2.2 (hemb.tail_nested (Slot.holding holder a)) hnd hnames hat.right hm hfuel
      (by omega)
    refine ⟨1 + rounds, ?_, ?_⟩
    · rw [length_append, length_structText]
      omega
    rw [length_append, ← add_assoc]
    refine Consumes.trans ?_ hloop
    refine Consumes.member pre.length (by omega) fun field info hI hclean htr => ?_
    have hhdr := getHeader_header hhdr.left hm
      (by rw [length_append, length_fieldText, length_nil]; omega) check info field
    obtain ⟨hne, hnext⟩ := Field.enter_depth
      (headerField field p startMarkerId
        (body ++ fieldText endMarkerId (sanitizeFieldName name.bytes) []).length
        (sanitizeFieldName name.bytes))
      startMarkerId (sanitizeFieldName name.bytes) hI (by omega)
    obtain ⟨_, hread, hclean', hkeeps⟩ := readStruct_structText hinner typeName _
      hbody (hcov.1.getOrCreate hx (inner.covers_default a)) hdist.2.1 hsized.2.1 hsized.1
      hat.left hm hfuel (Or.inl hne) (by omega) hclean
    obtain ⟨info'', hmember, hclean'', hkeeps'⟩ := hemb.readNested y ys
      field.subfields (fun _ => hnames) htr hclean' hkeeps hread
    refine ⟨_, _, _, info'', hhdr, hstart, hemb.findMemberIndex rfl hnd,
      hmember, Or.inr ?_, hI, hclean'', hkeeps'⟩
    rw [structText, length_fieldText]
    exact add_assoc _ _ _

theorem readsBack_structs
    (hrest : ReadsBack abi fuel check rest) (name : Identifier) (holder : Holder) (n : Option Nat)
    (typeName : Bytes) (inner : Members) :
    ReadsBack abi fuel check (.structs name holder n typeName inner rest) := by
  rintro depth _ ⟨x, _⟩ ⟨y, _⟩ _ hwire hcov hdist hsized α R _ C _ m p
    hemb hnd hnames hat hm hfuel hdep
  rw [Members.depth] at hdep
  rw [wire] at hwire
  -- arrays of structs are not written, so only a null pointer to one gets here
  cases hx : x.get? with
  | none =>
    rw [hx] at hwire
    obtain rfl := hcov.1.eq_of_none hx
    exact hrest depth hwire hcov.2 hdist.2.2 hsized.2 (hemb.tail_structs y) hnd hnames hat
      hm hfuel (by omega)
  | some as =>
    rw [hx] at hwire
    cases hwire

theorem readsBack (abi : Abi) (fuel : Nat) (check : ProtocolCheck) :
    (ms : Members) → ReadsBack abi fuel check ms
  | .nil => readsBack_nil abi fuel check
  | .leaf name holder ty rest =>
    readsBack_leaf (readsBack abi fuel check rest) name holder ty
  | .nested name holder typeName inner rest =>
    readsBack_nested (readsBack abi fuel check inner) (readsBack abi fuel check rest) name holder
      typeName
  | .structs name holder n typeName inner rest =>
    readsBack_structs (readsBack abi fuel check rest) name holder n typeName inner

theorem reads_checkHeaderInfo (check : ProtocolCheck) (info : DeserialiserInfo) :
    Reads (checkHeaderInfo check info) headerInfo info := by
  have hversion : ([1, 0, 0] : Bytes) = putInt 1 1 ++ (putInt 1 0 ++ (putInt 1 0 ++ [])) := by
    decide
  rw [headerInfo, append_assoc, hversion]
  refine (reads_getInt 4 (-1)).bind ?_
  rw [if_neg (by decide)]
  refine (reads_getString (by decide)).bind ?_
  rw [if_neg (by decide)]
  refine (reads_getInt 1 1).bind ?_
  refine (reads_getInt 1 0).bind ?_
  refine (reads_getInt 1 0).bind ?_
  rw [if_neg (by decide)]
  exact Reads.pure info

/-! ## The round trip -/

/-- A plain value whose maps are small enough to be written. -/
def Fits : (t : ValueTy) → t.Val → Prop
  | .map _ _ value, v => v.entries.length ≤ 126322566 ∧ ∀ e ∈ v.entries, Fits value e.2
  | _, _ => True

instance decidableFits : (t : ValueTy) → (v : t.Val) → Decidable (Fits t v)
  | .map _ _ value, v =>
    have := decidableFits value
    inferInstanceAs (Decidable (v.entries.length ≤ 126322566 ∧ ∀ e ∈ v.entries, Fits value e.2))
  | .scalar _, _ | .array _ _, _ | .set _, _ | .multiArray _ _, _ => inferInstanceAs (Decidable True)

/-- No map is too large, and there is no array of structs, for which the
protocol has no serialiser. -/
def Writable : (ms : Members) → ms.Val → Prop
  | .nil, _ => True
  | .leaf _ _ ty rest, (x, xs) => (∀ a ∈ x.get?, Fits ty a) ∧ Writable rest xs
  | .nested _ _ _ inner rest, (x, xs) => (∀ a ∈ x.get?, Writable inner a) ∧ Writable rest xs
  | .structs _ _ _ _ _ rest, (x, xs) => x.get? = none ∧ Writable rest xs

instance decidableWritable : (ms : Members) → (v : ms.Val) → Decidable (Writable ms v)
  | .nil, _ => inferInstanceAs (Decidable True)
  | .leaf _ _ ty rest, (x, xs) =>
    have := decidableWritable rest
    inferInstanceAs (Decidable ((∀ a ∈ x.get?, Fits ty a) ∧ Writable rest xs))
  | .nested _ _ _ inner rest, (x, xs) =>
    have := decidableWritable inner
    have := decidableWritable rest
    inferInstanceAs (Decidable ((∀ a ∈ x.get?, Writable inner a) ∧ Writable rest xs))
  | .structs _ _ _ _ _ rest, (x, xs) =>
    have := decidableWritable rest
    inferInstanceAs (Decidable (x.get? = none ∧ Writable rest xs))

theorem reserveFits_of_le (h : n ≤ 126322566) : reserveFits n = true := by
  have hmod : (n : Int).bmod (2 ^ 32) = n := Int.bmod_eq_of_le (by omega) (by omega)
  have hproduct : -2 ^ 31 ≤ (n : Int).bmod (2 ^ 32) * 17 ∧
      (n : Int).bmod (2 ^ 32) * 17 + 9 < 2 ^ 31 := by
    rw [hmod]
    constructor <;> omega
  unfold reserveFits
  exact decide_eq_true hproduct

theorem exists_mapM_eq_ok {ε α β : Type} {f : α → Except ε β} :
    ∀ (as : List α), (∀ a ∈ as, ∃ b, f a = .ok b) → ∃ bs, as.mapM f = .ok bs
  | [], _ => ⟨[], rfl⟩
  | a :: as, h => by
    obtain ⟨b, hb⟩ := h a (mem_cons_self ..)
    obtain ⟨bs, hbs⟩ := exists_mapM_eq_ok as fun c hc => h c (mem_cons_of_mem a hc)
    exact ⟨b :: bs, by rw [mapM_cons, hb, ok_bind, hbs]; rfl⟩

theorem exists_put_eq_ok (abi : Abi) (t : ValueTy) : ∀ {v : t.Val}, Fits t v →
    ∃ text, put abi t v = .ok text := by
  induction t with
  | scalar s => exact fun _ => ⟨_, rfl⟩
  | array n s => exact fun _ => ⟨_, rfl⟩
  | set s => exact fun _ => ⟨_, rfl⟩
  | multiArray s n => exact fun _ => ⟨_, rfl⟩
  | map kind key value ih =>
    intro v hfits
    obtain ⟨_, hvals⟩ := exists_mapM_eq_ok
      (abi.order kind v) fun e he =>
        ih (hfits.2 e ((abi.order_perm kind v).mem_iff.mp he))
    rw [put]
    rw [if_pos (reserveFits_of_le hfits.1), hvals, ok_bind]
    cases value.scalar? with
    | none => exact ⟨_, rfl⟩
    | some s => exact ⟨_, rfl⟩

theorem exists_wire_eq_ok (abi : Abi) : ∀ {ms : Members} {v : ms.Val}, Writable ms v →
    ∃ text, wire abi ms v = .ok text
  | .nil, _, _ => ⟨[], rfl⟩
  | .leaf _ _ ty rest, (x, xs), h => by
    obtain ⟨text, htext⟩ := exists_wire_eq_ok abi h.2
    rw [wire]
    cases hx : x.get? with
    | none => exact ⟨text, htext⟩
    | some a =>
      obtain ⟨_, hdata⟩ := exists_put_eq_ok abi ty (h.1 a hx)
      dsimp only
      rw [hdata, ok_bind, htext]
      exact ⟨_, rfl⟩
  | .nested _ _ _ inner rest, (x, xs), h => by
    obtain ⟨text, htext⟩ := exists_wire_eq_ok abi h.2
    rw [wire]
    cases hx : x.get? with
    | none => exact ⟨text, htext⟩
    | some a =>
      obtain ⟨_, hbody⟩ := exists_wire_eq_ok abi (h.1 a hx)
      dsimp only
      rw [hbody, ok_bind, htext]
      exact ⟨_, rfl⟩
  | .structs _ _ _ _ _ rest, (x, xs), h => by
    rw [wire, h.1]
    exact exists_wire_eq_ok abi h.2

/-- A struct that can be written in fewer than 2^31 bytes is read back from
them into any object that it overwrites, a default-constructed one for
instance. Its reflected name must survive the change of names, no two
members may share a wire name, and structs that are read under one field
name, `root` being that of the outermost, need equally many members. -/
theorem yas_roundTrips (abi : Abi) (T : StructTy) (v init : T.members.Val)
    (hwritable : Writable T.members v)
    (hlength : ∀ text, serialise (yas abi) T v = .ok text → text.length < 2 ^ 31)
    (hroot : sanitizeFieldName T.typeName = T.typeName) (hdistinct : T.members.DistinctNames)
    (hsized : ∃ size, T.members.names.length = size rootName ∧ T.members.Sized rootName size)
    (hdepth : T.members.depth ≤ 255) (hcovers : T.members.Covers v init) :
    RoundTrips (fun _ => yas abi) .always T v init := by
  obtain ⟨size, hsize, hsized⟩ := hsized
  obtain ⟨body, hbody⟩ := exists_wire_eq_ok abi hwritable
  have hwritten := serialise_eq_ok_iff.mpr ⟨body, hbody, rfl⟩
  have hlt := hlength _ hwritten
  refine ⟨_, fun fuel => ⟨hwritten, ?_⟩⟩
  intro beyond hfuel
  have hat := Memory.at_data ⟨headerInfo ++ structText (sanitizeFieldName T.typeName) body, beyond⟩
  have hinfo := reads_checkHeaderInfo .always {} _ _ hat.left
  obtain ⟨info, hread, hclean, -⟩ := readStruct_structText
    (readsBack abi fuel .always T.members) T.typeName
    (newFieldHeader
      (headerInfo ++ structText (sanitizeFieldName T.typeName) body).length rootName 0 unknownId (-1))
    hbody hcovers hdistinct hsized hsize hat.right hlt hfuel (Or.inr hroot)
    (show 0 + T.members.depth < 256 by omega) (clean_empty size)
  refine ⟨info, hclean.exceptions, ?_⟩
  rw [deserialise, readRoot_eq (P := yas abi) hinfo rfl, length_append, ← zero_add
    (headerInfo.length + _), ← add_assoc]
  exact hread

/-- A vector, a nested struct behind a pointer, a hash map and a null
pointer. -/
def settings : StructTy where
  typeName := str "Settings"
  members :=
    .leaf ⟨str "gain", isIdentifier_gain⟩ .direct (.array none (.int .w32)) <|
    .nested ⟨str "limits", by decide⟩ .pointer (str "Limits")
      (.leaf ⟨str "strict", by decide⟩ .direct (.scalar .bool) .nil) <|
    .leaf ⟨str "units", by decide⟩ .direct (.map .unorderedMap .string (.scalar (.int .w16))) <|
    .leaf ⟨str "comment", by decide⟩ .pointer (.scalar .string) .nil

def someSettings : settings.members.Val :=
  ([ofInt .w32 (-1), ofInt .w32 7], some (true, ()),
    SortedMap.ofEntries [(str "mm", ofInt .w16 3)], none, ())

theorem yas_roundTrips_settings :
    RoundTrips (fun _ => yas sortedAbi) .always settings someSettings settings.members.default := by
  have hlen : ∀ text, serialise (yas sortedAbi) settings someSettings = .ok text →
      text.length < 2 ^ 31 := by
    have hshort : ((serialise (yas sortedAbi) settings someSettings).toOption.all
        (·.length < 2 ^ 31)) = true := by decide +kernel
    intro text htext
    rw [htext] at hshort
    exact of_decide_eq_true hshort
  exact yas_roundTrips sortedAbi settings someSettings settings.members.default
    (by decide +kernel) hlen (by decide) (by decide)
    ⟨fun name => if name = rootName then 4 else 1, by decide, by decide, trivial, trivial⟩
    (by decide) (settings.members.covers_default someSettings)

/-- Two members with one name on the wire. -/
def twins : StructTy where
  typeName := str "Twins"
  members :=
    .leaf ⟨str "foo", by decide⟩ .direct (.scalar (.int .w32)) <|
    .leaf ⟨str "x_foo", by decide⟩ .direct (.scalar (.int .w32)) .nil

/-- A struct whose reflected name begins with the prefix that is dropped. -/
def prefixed : StructTy where
  typeName := str "x_T"
  members := .leaf ⟨str "a", isIdentifier_a⟩ .direct (.scalar .bool) .nil

/-- A nested struct that shares its bit field with the root. -/
def rooted : StructTy where
  typeName := str "Rooted"
  members :=
    .nested ⟨str "root", by decide⟩ .direct (str "Inner")
      (.leaf ⟨str "a", isIdentifier_a⟩ .direct (.scalar .bool) <|
        .leaf ⟨str "b", by decide⟩ .direct (.scalar .bool) .nil) .nil

/-- A smart pointer to a number. -/
def pointing : StructTy where
  typeName := str "Pointing"
  members := .leaf ⟨str "p", by decide⟩ .pointer (.scalar .bool) .nil

/-- A map with numbers as keys. -/
def counting : StructTy where
  typeName := str "Counting"
  members := .leaf ⟨str "m", isIdentifier_m⟩ .direct (.map .map (.int .w32) (.scalar .bool)) .nil

/-- The numbers below `n` as keys. -/
def countTo (n : Nat) (h : n < 2 ^ 31) : SortedMap (Signed .w32) Bool where
  entries := (range n).map fun i : Nat => (toWire i, false)
  sorted := by
    rw [pairwise_map]
    refine pairwise_lt_range.imp_of_mem fun {i j} hi hj hlt => ?_
    rw [mem_range] at hi hj
    show (toWire i).val < (toWire j).val
    rw [val_toWire (hi.trans h), val_toWire (hj.trans h)]
    exact Int.ofNat_lt.mpr hlt

theorem serialise_countTo_ne_ok (abi : Abi) {h : n < 2 ^ 31}
    (hfits : reserveFits n = false) (text : Bytes) :
    serialise (yas abi) counting (countTo n h, ()) ≠ .ok text := by
  intro htext
  obtain ⟨_, hbody, -⟩ := serialise_eq_ok_iff.mp htext
  simp only [counting, wire, Slot.get?] at hbody
  obtain ⟨_, hdata, -⟩ := bind_eq_ok.mp hbody
  have hlen : (countTo n h).entries.length = n := by
    rw [countTo, length_map, length_range]
  rw [put] at hdata
  rw [hlen, hfits] at hdata
  cases hdata

theorem not_yas_roundTrips :
    ¬ RoundTrips (fun _ => yas sortedAbi) .always twins (ofInt .w32 1, ofInt .w32 2, ())
        twins.members.default ∧
    ¬ RoundTrips (fun _ => yas sortedAbi) .always prefixed (true, ()) prefixed.members.default ∧
    ¬ RoundTrips (fun _ => yas sortedAbi) .always rooted ((true, true, ()), ()) rooted.members.default ∧
    ¬ RoundTrips (fun _ => yas sortedAbi) .always pointing (none, ()) (some true, ()) ∧
    ¬ RoundTrips (fun _ => yas sortedAbi) .always counting (countTo 126322567 (by decide), ())
        counting.members.default := by
  refine ⟨fun h => ?_, fun h => ?_, fun h => ?_, fun h => ?_, fun h => ?_⟩
  · exact absurd h.readBack_eq (by decide +kernel)
  · exact absurd h.readBack_eq (by decide +kernel)
  · exact absurd h.readBack_eq (by decide +kernel)
  · exact absurd h.readBack_eq (by decide +kernel)
  · obtain ⟨text, hall⟩ := h
    exact serialise_countTo_ne_ok sortedAbi (by decide) text (hall 0).1

end OpenCmw.Io.Yas
