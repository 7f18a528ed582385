import OpenCmw.IoSerialiser

/-!
# The CmwLight protocol

A struct is the number of its members followed by them; a member is its
name, a type id and the data. There are no end markers and no sizes: the
reader counts the members that are left in `subfields`, and a struct ends
when the counter is 0. The root has neither name nor type id, and the
counter is -1 where a header stands that is not counted.

A map is written like a struct with its keys as names. Its reader takes
the number of entries into the description of the field it belongs to.
-/

namespace OpenCmw.Io.CmwLight

open ByteReader

/-! ## Type ids -/

/-- `IoSerialiser<CmwLight, T>::getDataTypeId` of a number or a string. -/
def scalarId : Scalar → UInt8
  | .bool => 0
  | .int .w8 => 1
  | .int .w16 => 2
  | .int .w32 => 3
  | .int .w64 => 4
  | .string => 7

def startMarkerId : UInt8 := 0x08
def otherId : UInt8 := 0xFD
def endMarkerId : UInt8 := 0xFE
def unknownId : UInt8 := 0xFF

/-- `getTypeIdVector`: 9 to 13 and 16. -/
def vectorId (s : Scalar) : UInt8 := 9 + scalarId s

/-- `IoSerialiser<CmwLight, T>::getDataTypeId`: 17 to 24 for two dimensions,
25 to 32 for more. -/
def typeId : ValueTy → UInt8
  | .scalar s => scalarId s
  | .array _ s => vectorId s
  | .set s => vectorId s
  | .multiArray s 0 => vectorId s
  | .multiArray s 1 => 17 + scalarId s
  | .multiArray s (_ + 2) => 25 + scalarId s
  | .map .map .string _ => startMarkerId
  | .map _ _ _ => unknownId

/-! ## Field headers -/

/-- The name and the type id in front of a member. Nothing has a name at
depth 0. -/
def putHeader (depth : UInt8) (name : Bytes) (id : UInt8) : Bytes :=
  (if depth ≠ 0 then putString name else []) ++ [id]

/-- `FieldHeaderReader<CmwLight>::get`. -/
def getHeader (field : Field) : Get Field := do
  let headerStart ← position
  let field := { field with headerStart := headerStart, dataEndPosition := sizeMax }
  if field.subfields = 0 then
    return { field with
      intDataType := endMarkerId
      hierarchyDepth := field.hierarchyDepth - 1
      dataStartPosition := headerStart }
  else if field.subfields = -1 ∧ field.hierarchyDepth = 0 then
    return { field with intDataType := startMarkerId, dataStartPosition := headerStart }
  else
    let fieldName ← getString
    let intDataType ← getByte
    let dataStart ← position
    return { field with
      fieldName := fieldName
      intDataType := intDataType
      subfields := if field.subfields = -1 then -1 else toInt16 (field.subfields - 1)
      dataStartPosition := dataStart }

/-- `IoSerialiser<CmwLight, START_MARKER>::deserialise`. -/
def getStart (field : Field) : Get Field := do
  let subfields ← getInt 4
  let dataStart ← position
  return { field with subfields := toInt16 subfields, dataStartPosition := dataStart }

/-! ## Plain types -/

/-- `key.c_str()`: the key up to its first zero. -/
def cStr (key : Bytes) : Bytes := key.takeWhile (· ≠ 0)

/-- `IoSerialiser<CmwLight, T>::serialise` of a member at this depth. Of the
maps only those with strings as keys in order have a serialiser. -/
def put : (t : ValueTy) → UInt8 → t.Val → Put
  | .scalar s, _, v => .ok (putScalar s v)
  | .array _ _, _, v => .ok (putInt 4 1 ++ putInt 4 v.toList.length ++ putArray v.toList)
  | .set s, _, v => .ok (putInt 4 v.keys.length ++ v.keys.flatMap (putScalar s))
  | .multiArray _ _, _, v => .ok (putMultiArray v)
  | .map .map .string value, depth, v => do
    let entries ← v.entries.mapM fun e =>
      (putHeader (depth + 1) (cStr e.1) (typeId value) ++ ·) <$> put value (depth + 1) e.2
    .ok (putInt 4 v.entries.length ++ entries.flatten)
  | .map _ _ _, _, _ => .error (.thrown (.protocol .notImplemented))

/-- The product of two `int`s, which must be one. -/
def mulInt (i j : Int) : Get Int :=
  if -2 ^ 31 ≤ i * j ∧ i * j < 2 ^ 31 then pure (i * j) else fail .undefined

/-- The loop over the entries of a map. An entry of another type is left
where it is. -/
def getEntries {V : Type} (requestedType : UInt8) (d : V) (read : Field → V → Get (V × Field)) :
    Nat → SortedMap Bytes V → Field → Get (SortedMap Bytes V)
  | 0, _, _ => fail .outOfFuel
  | fuel + 1, value, field => do
    let position ← position
    let size ← size
    if position < size then
      let field ← getHeader field
      ByteReader.setPosition field.dataStartPosition
      if field.intDataType = endMarkerId then
        return value
      else
        let value := value.tryEmplace field.fieldName d
        if requestedType ≠ field.intDataType ∧ requestedType ≠ otherId then
          moveToFieldEndBufferPosition field
          getEntries requestedType d read fuel value field
        else
          let (v, field') ← read field ((value.find? field.fieldName).getD d)
          getEntries requestedType d read fuel (value.insert field.fieldName v) field'
    else
      return value

/-- `IoSerialiser<CmwLight, T>::deserialise` into an object that holds
`old`. The reader of a map leaves its number of entries in the description
of the field. -/
def get (fuel : Nat) : (t : ValueTy) → Field → t.Val → Get (t.Val × Field)
  | .scalar s, field, _ => (fun v => (v, field)) <$> getScalar s
  | .array n s, field, old => do
    let nx ← getInt 4
    let ny ← getInt 4
    let requestedSize ← mulInt nx ny
    let v ← getArrayInto s n (toSize requestedSize) old
    return (v, field)
  | .set s, field, _ => do
    let n ← getInt 4
    let data ← (getScalar s).times n.toNat
    return (SortedMap.ofEntries (data.map fun v => (v, ())), field)
  | .multiArray s n, field, _ => (fun v => (v, field)) <$> getMultiArray s (n + 1)
  | .map .map .string value, field, old => do
    let field ← getStart field
    let size ← size
    let entries ← getEntries (typeId value) value.default (get fuel value) fuel old
      (newFieldHeader size [] field.hierarchyDepth (typeId value) field.subfields)
    return (entries, field)
  | .map _ _ _, _, _ => throwProtocol .notImplemented

/-! ## Skipping -/

/-- `skipRawArray<T>` for elements of a size, or for strings. -/
def skipRawArray : Option Nat → Get Unit
  | some elementSize => do
    let n ← getInt 4
    let bytes ← mulInt n elementSize
    skip bytes
  | none => do
    let n ← getInt 4
    let _ ← ByteReader.times (do skip (← getInt 4)) n.toNat
    return ()

/-- `skipArray<T>`. -/
def skipArray (elementSize : Option Nat) : Get Unit := do
  skip 8
  skipRawArray elementSize

/-- `skipMultiArray<T>`. -/
def skipMultiArray (elementSize : Option Nat) : Get Unit := do
  skipRawArray (some 4)
  skipRawArray elementSize

/-- `IoSerialiser<CmwLight, OTHER>::deserialise`: by the type id alone. -/
def skipOther (field : Field) : Get Unit :=
  match field.intDataType.toNat with
  | 0 | 1 | 201 => skip 1
  | 2 => skip 2
  | 3 | 5 => skip 4
  | 4 | 6 => skip 8
  | 7 => skipRawArray (some 1)
  | 9 | 10 | 202 => skipArray (some 1)
  | 11 => skipArray (some 2)
  | 12 | 14 => skipArray (some 4)
  | 13 | 15 => skipArray (some 8)
  | 16 => skipArray none
  | 17 | 18 | 203 | 25 | 26 | 204 => skipMultiArray (some 1)
  | 19 | 27 => skipMultiArray (some 2)
  | 20 | 22 | 28 | 30 => skipMultiArray (some 4)
  | 21 | 23 | 29 | 31 => skipMultiArray (some 8)
  | 24 | 32 => skipMultiArray none
  | _ => throwProtocol (.cannotSkip field.intDataType)

/-- `checkHeaderInfo<CmwLight>`. -/
def checkHeaderInfo (info : DeserialiserInfo) : Get DeserialiserInfo := do
  let position ← position
  let size ← size
  if size ≤ position then
    fail (.thrown (.outOfRange position size))
  else
    let members ← getInt 4
    ByteReader.setPosition position
    if members = 0 then throwProtocol .illegalMemberCount
    else return info

end OpenCmw.Io.CmwLight

namespace OpenCmw.Io

/-- `struct CmwLight`, whose loops over the entries of a map may go this many
rounds. Arrays of structs have no serialiser. -/
def cmwLight (fuel : Nat) : SerialiserProtocol where
  startId := CmwLight.startMarkerId
  endId := CmwLight.endMarkerId
  otherId := CmwLight.otherId
  structId := CmwLight.unknownId
  typeId := CmwLight.typeId
  structsId := CmwLight.unknownId
  headerInfo := []
  putStart buf field :=
    .ok (buf ++ (if field.hierarchyDepth ≠ 0 then
      CmwLight.putHeader field.hierarchyDepth field.fieldName CmwLight.startMarkerId else []) ++
      putInt 4 field.subfields, sizeMax)
  putEnd buf _ := .ok buf
  putLeaf buf field t v :=
    (buf ++ CmwLight.putHeader field.hierarchyDepth field.fieldName (CmwLight.typeId t) ++ ·) <$>
      CmwLight.put t field.hierarchyDepth v
  putStructs _ _ _ := .error (.thrown (.protocol .notImplemented))
  updateSize buf _ _ := buf
  checkHeaderInfo _ := CmwLight.checkHeaderInfo
  getHeader _ info field := (fun field => (info, field)) <$> CmwLight.getHeader field
  getStart := CmwLight.getStart
  getLeaf := CmwLight.get fuel
  getStructs _ _ _ _ _ := throwProtocol .notImplemented
  skipOther := some CmwLight.skipOther

end OpenCmw.Io
