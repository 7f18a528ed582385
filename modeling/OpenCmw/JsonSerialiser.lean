import OpenCmw.IoSerialiser

/-!
# The JSON protocol

A struct is an object whose members are fields, one a line. The writer
puts a separator behind every field and takes the last one back at the end
of the object. The reader knows no sizes: it skips whitespace, tells what
follows by one character, and for a field that no member has it skips a
value of any shape.

JSON carries no types. All plain types share the id `otherId`, except
those that are written as objects.

The loops over strings, arrays, maps and skipped values get a number of
rounds, as the loop over the fields of a struct does.
-/

namespace OpenCmw.Io.Json

open ByteReader (size fail)
open ByteReader (setPosition)

/-! ## Type ids -/

def otherId : UInt8 := 0
def endMarkerId : UInt8 := 1
def startMarkerId : UInt8 := 2
def unknownId : UInt8 := 0xFF

/-- `IoSerialiser<Json, T>::getDataTypeId`. Of the maps only those with
strings as keys have a serialiser. -/
def typeId : ValueTy → UInt8
  | .multiArray _ _ => startMarkerId
  | .map _ .string _ => startMarkerId
  | .map _ _ _ => unknownId
  | _ => otherId

/-! ## Characters -/

def quote : UInt8 := chr '\x22'
def backslash : UInt8 := chr '\\'
def openBrace : UInt8 := chr '\x7b'
def closeBrace : UInt8 := chr '\x7d'
def openBracket : UInt8 := chr '['
def closeBracket : UInt8 := chr ']'
def comma : UInt8 := chr ','
def colon : UInt8 := chr ':'

variable (c : UInt8)

def isNumberChar : Bool :=
  (chr '+' ≤ c && c ≤ chr '9' && c ≠ chr '/' && c ≠ chr ',') || c == chr 'e' || c == chr 'E'

def isWhitespace : Bool :=
  c == chr ' ' || c == chr '\t' || c == chr '\n' || c == chr '\r'

def isHexNumberChar : Bool :=
  (chr '0' ≤ c && c ≤ chr '9') || (chr 'a' ≤ c && c ≤ chr 'f') || (chr 'A' ≤ c && c ≤ chr 'F')

/-! ## Writing plain types -/

/-- One character of a string. -/
def escape : Bytes :=
  if c = quote ∨ c = backslash ∨ c = chr '/' then [backslash, c]
  else if c = 8 then [backslash, chr 'b']
  else if c = 12 then [backslash, chr 'f']
  else if c = 10 then [backslash, chr 'n']
  else if c = 13 then [backslash, chr 'r']
  else if c = 9 then [backslash, chr 't']
  else [c]

def writeString (s : Bytes) : Bytes := [quote] ++ s.flatMap escape ++ [quote]

/-- `std::to_chars` of a number. -/
def toChars (i : Int) : Bytes :=
  if i < 0 then chr '-' :: toDec i.natAbs else toDec i.natAbs

def writeScalar : (s : Scalar) → s.Val → Bytes
  | .bool, b => if b then str "true" else str "false"
  | .int _, i => toChars i.val
  | .string, s => writeString s

/-- The elements of an array or a set. -/
def writeList (texts : List Bytes) : Bytes :=
  [openBracket] ++ List.intercalate (str ", ") texts ++ [closeBracket]

/-- The name and the colon in front of a value. -/
def writeKey (name : Bytes) : Bytes := [quote] ++ name ++ str "\x22: "

/-- A field with the separator behind it. -/
def writeField (name data : Bytes) : Bytes := writeKey name ++ data ++ str ",\n"

/-- `buffer.resize(buffer.size() - 2)`. -/
def dropSeparator (text : Bytes) : Bytes := text.take (text.length - 2)

/-- The fields of an object that is a plain value. -/
def writeObject (fields : Bytes) : Bytes := dropSeparator (str "\x7b\n" ++ fields) ++ str "\n\x7d\n"

/-- `IoSerialiser<Json, T>::serialise`. -/
def put (abi : Abi) : (t : ValueTy) → t.Val → Put
  | .scalar s, v => .ok (writeScalar s v)
  | .array _ s, v => .ok (writeList (v.toList.map (writeScalar s)))
  | .set s, v => .ok (writeList (v.keys.map (writeScalar s)))
  | .multiArray s _, v =>
    let dims := v.val.dims.map fun d => writeScalar (.int .w32) (toWire d.toNat)
    .ok (writeObject (writeField (str "dims") (writeList dims) ++
      writeField (str "values") (writeList (v.val.elements.map (writeScalar s)))))
  | .map kind .string value, v => do
    let fields ← (abi.order kind v).mapM fun e => writeField e.1 <$> put abi value e.2
    .ok (writeObject fields.flatten)
  | .map _ _ _, _ => .error (.thrown (.protocol .notImplemented))

/-! ## Field headers, written -/

/-- `FieldHeaderWriter<Json>::put` of a start marker. -/
def putStart (buf : Bytes) (field : Field) : Bytes :=
  buf ++ (if field.fieldName ≠ [] ∧ field.hierarchyDepth ≠ 0 then writeKey field.fieldName else []) ++
    str "\x7b\n"

/-- `FieldHeaderWriter<Json>::put` of an end marker: the separator behind the
last field is known by its comma. -/
def putEnd (buf : Bytes) (field : Field) : Put :=
  let close := if field.hierarchyDepth = 0 then str "\n\x7d" else str "\n\x7d,\n"
  if buf.length < 2 then
    .error (.thrown (.outOfRange (toSize ((buf.length : Int) - 2)) buf.length))
  else if buf[buf.length - 2]? = some comma then .ok (dropSeparator buf ++ close)
  else .ok (buf ++ close)

/-- Each element of an array of structs is a root of its own. -/
def putStructs (buf : Bytes) (field : Field) (elements : List (Bytes → Put)) : Put := do
  let buf := buf ++ writeKey field.fieldName ++ [openBracket]
  let (_, buf) ← elements.foldlM (fun (state : Bool × Bytes) write => do
    let buf ← write (if state.1 then state.2 else state.2 ++ str ", ")
    .ok (false, buf)) (true, buf)
  .ok (buf ++ [closeBracket] ++ str ",\n")

/-! ## Scanning -/

def consumeWhitespace : Get Unit := do
  let position ← ByteReader.position
  let blanks ← ByteReader.span isWhitespace
  setPosition (position + blanks.length)

/-- Whether this word and one more character stand at the position. -/
def startsWord (word : Bytes) : Get Bool := do
  let position ← ByteReader.position
  let size ← size
  if word.length < toSize ((size : Int) - position) then
    let text ← asString position word.length
    return text == word
  else
    return false

/-- `isHexNumber` of the four characters at the position, read without a
check. -/
def hexNumberAhead : Get Bool := fun m p =>
  match m.bytesAt p 4 with
  | some digits => .ok (digits.all isHexNumberChar, p)
  | none => .error .outOfBounds

/-- What stands behind a backslash. -/
def readEscape : Get UInt8 := do
  let c ← getByte
  let position ← ByteReader.position
  let size ← size
  if c = quote ∨ c = backslash ∨ c = chr '/' then atIndex (position - 1)
  else if c = chr 'b' then return 8
  else if c = chr 'f' then return 12
  else if c = chr 'n' then return 10
  else if c = chr 'r' then return 13
  else if c = chr 't' then return 9
  else if c = chr 'u' then
    -- the digits are not looked at when they reach the end of the buffer
    let hex ← if size ≤ position + 4 then pure false else hexNumberAhead
    if hex then
      advance 4
      return chr '_'
    else
      let text ← asString position 4
      throwProtocol (.illegalHexNumber text position size)
  else
    let c ← atIndex (position - 1)
    throwProtocol (.illegalEscape c position size)

/-- The characters up to the closing quote. -/
def readChars : Nat → Get Bytes
  | 0 => fail .outOfFuel
  | fuel + 1 => do
    let currentChar ← getByte
    if currentChar = quote then
      return []
    else
      let position ← ByteReader.position
      let c ← atIndex (position - 1)
      let c ← if c = backslash then readEscape else pure currentChar
      (c :: ·) <$> readChars fuel

variable (fuel : Nat)

def readString : Get Bytes := do
  let position ← ByteReader.position
  let size ← size
  if size ≤ position then
    return []
  else
    let c ← getByte
    if c ≠ quote then throwProtocol .expectedQuote
    else readChars fuel

/-- A key ends at the next quote and must not hold a backslash. -/
def readKey : Get Bytes := do
  let c ← getByte
  if c ≠ quote then throwProtocol .expectedKeyQuote
  else
    let start ← ByteReader.position
    let key ← ByteReader.span fun c => c ≠ quote ∧ c ≠ backslash
    let stop := start + key.length
    let c ← atIndex stop
    if c = backslash then
      let c ← atIndex (start - 1)
      throwProtocol (.escapeInKey c)
    else
      setPosition (stop + 1)
      asString start ((key.length : Int).bmod (2 ^ 32))

/-! ## Skipping -/

/-- `json::skipField`, with what skips the value. -/
def skipField (skipValue : Get Unit) : Get Unit := do
  consumeWhitespace
  let _ ← readString fuel
  consumeWhitespace
  let c ← getByte
  if c ≠ colon then throwProtocol .noColon
  else
    consumeWhitespace
    skipValue
    consumeWhitespace

/-- The loop over the fields of an object. -/
def skipFields (fuel : Nat) (skipValue : Get Unit) : Nat → Get Unit
  | 0 => fail .outOfFuel
  | rounds + 1 => do
    let c ← atIndex (← ByteReader.position)
    if c = closeBrace then pure ()
    else
      skipField fuel skipValue
      let c ← atIndex (← ByteReader.position)
      if c = closeBrace then pure ()
      else
        let c ← getByte
        if c ≠ comma then throwProtocol .expectedFieldComma
        else
          consumeWhitespace
          skipFields fuel skipValue rounds

def skipObject (skipValue : Get Unit) : Get Unit := do
  let c ← getByte
  if c ≠ openBrace then throwProtocol .expectedObject
  else
    consumeWhitespace
    skipFields fuel skipValue fuel
    skip 1
    consumeWhitespace

/-- The loop over the entries of an array. -/
def skipEntries (skipValue : Get Unit) : Nat → Get Unit
  | 0 => fail .outOfFuel
  | rounds + 1 => do
    let c ← atIndex (← ByteReader.position)
    if c = closeBracket then pure ()
    else
      skipValue
      consumeWhitespace
      let c ← atIndex (← ByteReader.position)
      if c = closeBracket then pure ()
      else
        let c ← getByte
        if c ≠ comma then throwProtocol .expectedEntryComma
        else
          consumeWhitespace
          skipEntries skipValue rounds

def skipArray (skipValue : Get Unit) : Get Unit := do
  let c ← getByte
  if c ≠ openBracket then throwProtocol .expectedArray
  else
    consumeWhitespace
    skipEntries skipValue fuel
    advance 1
    consumeWhitespace

/-- The characters of a number, and one back. -/
def skipNumber : Nat → Get Unit
  | 0 => fail .outOfFuel
  | fuel + 1 => do
    let c ← getByte
    if isNumberChar c then skipNumber fuel else advance (-1)

/-- `json::skipValue` for objects and arrays nested at most this deep. -/
def skipValue (fuel : Nat) : Nat → Get Unit
  | 0 => fail .outOfFuel
  | depth + 1 => do
    consumeWhitespace
    let firstChar ← atIndex (← ByteReader.position)
    if firstChar = openBrace then skipObject fuel (skipValue fuel depth)
    else if firstChar = openBracket then skipArray fuel (skipValue fuel depth)
    else if firstChar = quote then
      let _ ← readString fuel
      pure ()
    else if ← startsWord (str "false") then advance 5
    else if ← startsWord (str "true") then advance 4
    else if ← startsWord (str "null") then advance 4
    else skipNumber fuel

/-! ## Field headers, read -/

/-- `handleDeserialisationError` under a condition. -/
def reportIf (bad : Prop) [Decidable bad] (check : ProtocolCheck) (info : DeserialiserInfo)
    (e : ProtocolException) : Get DeserialiserInfo :=
  if bad then handleDeserialisationError check info e else pure info

/-- The description of a field behind its name, where the value begins with
`c`. -/
def namedField (field : Field) (name : Bytes) (c : UInt8) (position : Nat) : Field :=
  { field with
    fieldName := name
    intDataType := if c = openBrace then startMarkerId else otherId
    dataStartPosition := if c = openBrace then position + 1 else position
    dataEndPosition := sizeMax }

/-- The description behind a brace. -/
def markerField (field : Field) (id : UInt8) (dataStart : Nat) : Field :=
  { field with
    intDataType := id
    dataStartPosition := dataStart
    dataEndPosition := sizeMax }

/-- To where a header may begin: whitespace, and a comma that is not counted
as part of the header. -/
def seekHeader : Get Nat := do
  let headerStart ← ByteReader.position
  consumeWhitespace
  let c ← atIndex (← ByteReader.position)
  if c = comma then
    advance 1
    consumeWhitespace
    ByteReader.position
  else
    return headerStart

variable (check : ProtocolCheck) (info : DeserialiserInfo)

/-- The header of a field that begins with its name. -/
def getNamed (field : Field) : Get (DeserialiserInfo × Field) := do
  let fieldName ← readKey
  let position ← ByteReader.position
  let info ← reportIf (fieldName = []) check info (.emptyFieldName position)
  consumeWhitespace
  let c ← getByte
  let position ← ByteReader.position
  let info ← reportIf (c ≠ colon) check info (.noColonAt position)
  consumeWhitespace
  let position ← ByteReader.position
  let c ← atIndex position
  let field := namedField field fieldName c position
  setPosition field.dataStartPosition
  return (info, field)

/-- The header that the character `c` at the position begins. Where nothing
fits, the description keeps what it said about the field before. -/
def getHeaderAt (field : Field) (position : Nat) (c : UInt8) : Get (DeserialiserInfo × Field) :=
  if c = openBrace then
    return (info, markerField field startMarkerId (position + 1))
  else if c = closeBrace then do
    setPosition (position + 1)
    return (info, markerField field endMarkerId (position + 1))
  else if c = quote then
    getNamed check info field
  else do
    let info ← handleDeserialisationError check info (.unexpectedCharacter c position)
    return (info, field)

/-- `FieldHeaderReader<Json>::get`. -/
def getHeader (field : Field) : Get (DeserialiserInfo × Field) := do
  let headerStart ← seekHeader
  let position ← ByteReader.position
  let c ← atIndex position
  getHeaderAt check info { field with headerStart := headerStart } position c

/-! ## Reading plain types -/

def readBool : Get Bool := do
  if ← startsWord (str "false") then
    advance 5
    return false
  else if ← startsWord (str "true") then
    advance 4
    return true
  else throwProtocol .unsupportedBoolean

/-- The digits ahead, at most this many. -/
def takeDigits : Nat → Get Bytes
  | 0 => pure []
  | n + 1 => do
    let c ← getByte
    if isDigit c then (c :: ·) <$> takeDigits n
    else
      advance (-1)
      return []

/-- The number, if its type can hold it. -/
def checkRange (w : IntWidth) (start : Nat) (value : Int) : Get (Signed w) :=
  if h : value.bmod (256 ^ w.size) = value then pure ⟨value, h⟩
  else throwProtocol (.numberError 34 start)

/-- `std::from_chars` over thirty characters. The errors are those of
`std::errc`: 22 for an invalid argument, 34 for a result out of range. -/
def readNumber (w : IntWidth) : Get (Signed w) := do
  let start ← ByteReader.position
  let c ← getByte
  if c = chr '-' then
    let digits ← takeDigits 29
    if digits = [] then throwProtocol (.numberError 22 start)
    else checkRange w start (-(ofDec digits : Int))
  else
    advance (-1)
    let digits ← takeDigits 30
    if digits = [] then throwProtocol (.numberError 22 start)
    else checkRange w start (ofDec digits)

def readScalar : (s : Scalar) → Get s.Val
  | .bool => readBool
  | .int w => readNumber w
  | .string => readString fuel

/-- The elements of an array that is not empty. -/
def readItems {α : Type} (readItem : Get α) : Nat → Get (List α)
  | 0 => fail .outOfFuel
  | fuel + 1 => do
    let a ← readItem
    consumeWhitespace
    let next ← getByte
    if next = closeBracket then return [a]
    else if next ≠ comma then throwProtocol .expectedCommaOrEnd
    else
      consumeWhitespace
      (a :: ·) <$> readItems readItem fuel

def readList {α : Type} (fuel : Nat) (readItem : Get α) : Get (List α) := do
  let c ← getByte
  if c ≠ openBracket then throwProtocol .expectedBracket
  else
    consumeWhitespace
    let c ← getByte
    if c = closeBracket then return []
    else
      advance (-1)
      readItems readItem fuel

/-- `json::assignArray`. -/
def assignArray {α : Type} : (n : Option Nat) → List α → Get (Seq n α)
  | none, result => pure result
  | some n, result =>
    if h : result.length = n then pure ⟨result, h⟩
    else throwProtocol (.arraySizeMismatch result.length n)

def readArray {α : Type} (fuel : Nat) (n : Option Nat) (readItem : Get α) : Get (Seq n α) := do
  let result ← readList fuel readItem
  assignArray n result

/-- The description that the fields of an object are read into. -/
def objectField (field : Field) (id : UInt8) : Field where
  headerStart := 0
  dataStartPosition := 0
  dataEndPosition := 0
  subfields := 0
  fieldName := []
  intDataType := id
  hierarchyDepth := field.hierarchyDepth + 1

/-- The loop over the entries of a map. What is read goes to a copy of the
entry. -/
def getEntries {V : Type} (d : V) (read : Field → V → Get V) :
    Nat → SortedMap Bytes V → Field → Get (SortedMap Bytes V)
  | 0, _, _ => fail .outOfFuel
  | fuel + 1, value, fieldHeader => do
    let (_, fieldHeader) ← getHeader .always {} fieldHeader
    if fieldHeader.intDataType = endMarkerId then return value
    else
      let value := value.tryEmplace fieldHeader.fieldName d
      let _ ← read fieldHeader ((value.find? fieldHeader.fieldName).getD d)
      getEntries d read fuel value fieldHeader

/-- The two fields of a `MultiArray`. -/
def getMultiArray (s : Scalar) (n : Nat) (fieldHeader : Field) : Get (RowMajor s.Val n) := do
  let (_, fieldHeader) ← getHeader .always {} fieldHeader
  if fieldHeader.intDataType ≠ otherId ∨ fieldHeader.fieldName ≠ str "dims" then
    throwProtocol .expectedDimensions
  else
    let dimWire ← readArray fuel (some n) (readNumber .w32)
    let (_, fieldHeader) ← getHeader .always {} fieldHeader
    if fieldHeader.intDataType ≠ otherId ∨ fieldHeader.fieldName ≠ str "values" then
      throwProtocol .expectedValues
    else
      let elements ← readArray fuel none (readScalar fuel s)
      let (_, fieldHeader) ← getHeader .always {} fieldHeader
      if fieldHeader.intDataType ≠ endMarkerId then throwProtocol .expectedEndMarker
      else return RowMajor.mk elements (List.Vector.map ofWire dimWire)

/-- `IoSerialiser<Json, T>::deserialise` into an object that holds `old`. -/
def get (fuel : Nat) : (t : ValueTy) → Field → t.Val → Get t.Val
  | .scalar s, _, _ => readScalar fuel s
  | .array n s, _, _ => readArray fuel n (readScalar fuel s)
  | .set s, _, _ => do
    let items ← readList fuel (readScalar fuel s)
    return SortedMap.ofEntries (items.map fun v => (v, ()))
  | .multiArray s n, field, _ => getMultiArray fuel s (n + 1) (objectField field otherId)
  | .map _ .string value, field, old =>
    getEntries value.default (get fuel value) fuel old (objectField field (typeId value))
  | .map _ _ _, _, _ => throwProtocol .notImplemented

end OpenCmw.Io.Json

namespace OpenCmw.Io

/-- `struct Json`, whose loops may go this many rounds. -/
def json (abi : Abi) (fuel : Nat) : SerialiserProtocol where
  startId := Json.startMarkerId
  endId := Json.endMarkerId
  otherId := Json.otherId
  structId := Json.otherId
  typeId := Json.typeId
  structsId := Json.otherId
  headerInfo := []
  putStart buf field := .ok (Json.putStart buf field, 0)
  putEnd := Json.putEnd
  putLeaf buf field t v := (fun data => buf ++ Json.writeField field.fieldName data) <$> Json.put abi t v
  putStructs := Json.putStructs
  updateSize buf _ _ := buf
  checkHeaderInfo _ info := pure info
  getHeader := Json.getHeader
  getStart field := pure field
  getLeaf t field old := (fun v => (v, field)) <$> Json.get fuel t field old
  getStructs n _ _ readOne _ := Json.readArray fuel n readOne
  skipOther := some fun _ => Json.skipValue fuel fuel

end OpenCmw.Io
