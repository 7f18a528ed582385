import OpenCmw.IoSerialiser

/-!
# The YaS protocol

Every field has a header: type id, offset of the data, size of the data,
name. Offset and size are written as placeholders first and patched once
the data is there; a struct's size is patched again behind its end
marker, so that it covers the whole struct and can be skipped.
-/

namespace OpenCmw.Io.Yas

/-! ## Type ids and names -/

/-- `yas::getDataTypeId` of a scalar. -/
def scalarId : Scalar → UInt8
  | .bool => 1
  | .int .w8 => 2
  | .int .w16 => 3
  | .int .w32 => 4
  | .int .w64 => 5
  | .string => 9

def startMarkerId : UInt8 := 0
def otherId : UInt8 := 0xFD
def endMarkerId : UInt8 := 0xFE
def unknownId : UInt8 := 0xFF
def arrayTypeOffset : UInt8 := 100

/-- `IoSerialiser<YaS, T>::getDataTypeId`. There is no id for `std::array`. -/
def typeId : ValueTy → UInt8
  | .scalar s => scalarId s
  | .array none s => arrayTypeOffset + scalarId s
  | .array (some _) _ => unknownId
  | .set s => arrayTypeOffset + scalarId s
  | .multiArray s _ => arrayTypeOffset + scalarId s
  | .map _ _ _ => 203

/-- `typeName<T>` of a scalar. -/
def scalarName (abi : Abi) : Scalar → Bytes
  | .bool => abi.typeidName (.scalar .bool)
  | .int .w8 => str "int8_t"
  | .int .w16 => str "int16_t"
  | .int .w32 => str "int32_t"
  | .int .w64 => str "int64_t"
  | .string => str "string"

/-- `typeName<T>`. -/
def typeName (abi : Abi) : ValueTy → Bytes
  | .scalar s => scalarName abi s
  | .array none s => str "vector<" ++ scalarName abi s ++ str ">"
  | .array (some n) s => str "array<" ++ scalarName abi s ++ str "," ++ toDec n ++ str ">"
  | .set s => abi.typeidName (.set s)
  | .multiArray s n =>
    str "MultiArray<" ++ scalarName abi s ++ str "," ++ toDec (n + 1) ++ str ">"
  | .map _ key value =>
    str "map<" ++ scalarName abi key ++ str "," ++ typeName abi value ++ str ">"

/-! ## Plain types -/

/-- `nElements * entrySize + 9`, the estimate of the space a map needs, is
computed as an `int`. -/
def reserveFits (n : Nat) : Bool :=
  let product := (n : Int).bmod (2 ^ 32) * 17
  decide (-2 ^ 31 ≤ product ∧ product + 9 < 2 ^ 31)

/-- `IoSerialiser<YaS, T>::serialise`. -/
def put (abi : Abi) : (t : ValueTy) → t.Val → Put
  | .scalar s, v => .ok (putScalar s v)
  | .array _ _, v => .ok (putDims [toWire v.toList.length] ++ putArray v.toList)
  | .set s, v =>
    .ok (putDims [toWire v.keys.length] ++ putInt 4 v.keys.length ++ v.keys.flatMap (putScalar s))
  | .multiArray _ _, v => .ok (putMultiArray v)
  | .map kind key value, v =>
    let entries := abi.order kind v
    let nElements := putInt 4 v.entries.length
    if reserveFits v.entries.length then do
      let keys := [scalarId key] ++ nElements ++ entries.flatMap fun e => putScalar key e.1
      let values ← entries.mapM fun e => put abi value e.2
      match value.scalar? with
      | some s => .ok (nElements ++ keys ++ ([scalarId s] ++ nElements ++ values.flatten))
      | none => .ok (nElements ++ keys ++ ([otherId] ++ putString (typeName abi value) ++
          putString [] ++ nElements ++ values.flatten))
    else .error .undefined

/-- The values from index `i` on, each assigned to its key. -/
def getEntries {K V : Type} [LinearOrder K] (r : Nat → Get V) : Nat → Nat → List K →
    SortedMap K V → Get (SortedMap K V)
  | _, 0, _, m => pure m
  | i, n + 1, keys, m => do
    let v ← r i
    match keys with
    | [] => ByteReader.fail .undefined
    | k :: keys => getEntries r (i + 1) n keys (m.insert k v)

/-- The description of the value at an index of a map. -/
def entryField (field : Field) (i : Nat) : Field :=
  { field with fieldName := field.fieldName ++ str "[" ++ toDec i ++ str "]" }

/-- `static_cast<uint32_t>` of a count. -/
def getCount : Get Nat := (fun i => (i % 2 ^ 32).toNat) <$> getInt 4

/-- `IoSerialiser<YaS, T>::deserialise` into an object that holds `old`. -/
def get : (t : ValueTy) → Field → t.Val → Get t.Val
  | .scalar s, _, _ => getScalar s
  | .array n s, _, old => do
    let _ ← getDims 1
    getArrayInto s n sizeMax old
  | .set s, _, _ => do
    let size ← getDims 1
    let data ← getArray s (toSize size.head.val)
    return SortedMap.ofEntries (data.map fun v => (v, ()))
  | .multiArray s n, _, _ => getMultiArray s (n + 1)
  | .map _ key value, field, old => do
    let nElements ← getCount
    let keyType ← getByte
    if scalarId key ≠ keyType then
      throwProtocol (.mapKeyType field.fieldName (scalarId key) keyType)
    else
      let nElementsCheck ← getCount
      if nElements ≠ nElementsCheck then
        throwProtocol (.mapKeyCount field.fieldName nElements nElementsCheck)
      else
        let keys ← (getScalar key).times nElementsCheck
        let valueType ← getByte
        match value.scalar? with
        | some s =>
          if scalarId s ≠ valueType then
            throwProtocol (.mapValueType field.fieldName (scalarId s) valueType)
          else
            let nElementsCheck ← getCount
            if nElements ≠ nElementsCheck then
              throwProtocol (.mapValueCount field.fieldName nElements nElementsCheck)
            else
              getEntries (fun _ => get value field value.default) 0 nElementsCheck keys ∅
        | none =>
          if valueType = otherId then
            let _ ← getString
            let _ ← getString
            let valueElements ← getInt 4
            getEntries (fun i => get value (entryField field i) value.default) 0
              (toSize valueElements) keys old
          else throwProtocol (.unsupportedKeyType keyType field.fieldName)

/-! ## Field headers -/

/-- `buffer.at<int32_t, false>(pos) = i`. -/
def patch (buf : Bytes) (pos : Nat) (i : Int) : Bytes :=
  buf.take pos ++ putInt 4 i ++ buf.drop (pos + 4)

/-- `FieldHeaderWriter<YaS>::put`, with the position of the data size. -/
def putField (buf : Bytes) (field : Field) (id : UInt8) (data : Bytes → Put) :
    Except (Halt Exception) (Bytes × Nat) := do
  let headerStart := buf.length
  let buf := buf ++ [id]
  let dataStartOffsetPosition := buf.length
  let buf := buf ++ putInt 4 (-1)
  let dataSizePosition := buf.length
  let buf := buf ++ putInt 4 (-1)
  let buf := buf ++ putString field.fieldName
  let dataStartPosition := buf.length
  let buf := patch buf dataStartOffsetPosition ((dataStartPosition : Int) - headerStart)
  let buf ← data buf
  let buf := patch buf dataSizePosition ((buf.length : Int) - dataStartPosition)
  return (buf, dataSizePosition)

/-- `updateSize<YaS>`. -/
def updateSize (buf : Bytes) (posSizePositionStart posStartDataStart : Nat) : Bytes :=
  patch buf posSizePositionStart ((buf.length : Int) - posStartDataStart)

/-- `putHeaderInfo<YaS>`: magic number, protocol name, version. -/
def headerInfo : Bytes := putInt 4 (-1) ++ putString (str "YaS") ++ [1, 0, 0]

variable (check : ProtocolCheck)

/-- `checkHeaderInfo<YaS>`. -/
def checkHeaderInfo (info : DeserialiserInfo) : Get DeserialiserInfo := do
  let magic ← getInt 4
  if magic ≠ -1 then
    handleUnlessIgnored check info (.magicNumber magic)
  else
    let protoName ← getString
    if protoName ≠ str "YaS" then
      handleUnlessIgnored check info (.protocolName protoName)
    else
      let major ← getInt 1
      let minor ← getInt 1
      let micro ← getInt 1
      if major ≠ 1 then
        handleUnlessIgnored check info (.majorVersion major minor micro)
      else
        return info

/-- An optional string between the name and the data. -/
def getMetaString (dataStart : Nat) : Get Unit := do
  let position ← ByteReader.position
  if position = dataStart then
    pure ()
  else
    let _ ← getString
    pure ()

/-- The unit, quantity, description and modifier of an annotated member,
which are not kept here. -/
def getMetaInfo (dataStart : Nat) : Get Unit :=
  match check with
  | .ignore => pure ()
  | _ => do
    getMetaString dataStart
    getMetaString dataStart
    getMetaString dataStart
    let position ← ByteReader.position
    if position = dataStart then
      pure ()
    else
      let _ ← getByte
      pure ()

/-- `FieldHeaderReader<YaS>::get`. -/
def getHeader (info : DeserialiserInfo) (field : Field) : Get (DeserialiserInfo × Field) := do
  let headerStart ← ByteReader.position
  let intDataType ← getByte
  let dataStartOffset ← getInt 4
  let dataSize ← getInt 4
  let fieldName ← getString
  let dataStart := toSize ((headerStart : Int) + dataStartOffset)
  getMetaInfo check dataStart
  return (info, { field with
    headerStart := headerStart
    intDataType := intDataType
    fieldName := fieldName
    dataStartPosition := dataStart
    dataEndPosition := toSize ((headerStart : Int) + dataStartOffset + dataSize) })

end OpenCmw.Io.Yas

namespace OpenCmw.Io

/-- `struct YaS`. Arrays of structs have no serialiser. -/
def yas (abi : Abi) : SerialiserProtocol where
  startId := Yas.startMarkerId
  endId := Yas.endMarkerId
  otherId := Yas.otherId
  structId := Yas.unknownId
  typeId := Yas.typeId
  structsId := Yas.unknownId
  headerInfo := Yas.headerInfo
  putStart buf field := Yas.putField buf field Yas.startMarkerId fun buf => .ok buf
  putEnd buf field := (·.1) <$> Yas.putField buf field Yas.endMarkerId fun buf => .ok buf
  putLeaf buf field t v :=
    (·.1) <$> Yas.putField buf field (Yas.typeId t) fun buf => (buf ++ ·) <$> Yas.put abi t v
  putStructs _ _ _ := .error (.thrown (.protocol .notImplemented))
  updateSize := Yas.updateSize
  checkHeaderInfo := Yas.checkHeaderInfo
  getHeader := Yas.getHeader
  getStart field := pure field
  getLeaf t field old := (fun v => (v, field)) <$> Yas.get t field old
  getStructs _ _ _ _ _ := throwProtocol .notImplemented
  skipOther := none

end OpenCmw.Io
