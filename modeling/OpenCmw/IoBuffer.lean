import OpenCmw.FieldTypes

/-!
# The serialisation buffer

`IoBuffer` holds bytes that are appended by `put` and read back by `get`
at a position. Writing is a function on byte lists here: how the capacity
grows is not part of this model, the bytes are. Reading follows the
source's arithmetic: lengths are signed 32-bit numbers on the wire and
become `size_t`, so a negative one is a huge one (`toSize`).

One lemma for each `get` says that it reads what the matching `put`
wrote, as long as the written text is shorter than 2^31 bytes.
-/

namespace OpenCmw.Io

open ByteReader List Int

/-- What the serialisers throw. The constructors of `ProtocolException`
stand for the messages of the source, with what is formatted into them. -/
inductive ProtocolException
  | unexpectedType (typeName fieldName : Bytes)
  | missingField (dataType : UInt8) (parent field : Bytes) (position size : Nat)
  | mismatchedType (fieldName : Bytes) (requested got : UInt8)
  | notConsumed (fieldName : Bytes) (dataEnd position : Nat)
  | bufferLeft (typeName : Bytes) (depth : UInt8) (position size : Nat)
  | notImplemented
  | magicNumber (got : Int)
  | protocolName (got : Bytes)
  | majorVersion (major minor micro : Int)
  | mapKeyType (fieldName : Bytes) (required got : UInt8)
  | mapKeyCount (fieldName : Bytes) (required got : Nat)
  | mapValueType (fieldName : Bytes) (required got : UInt8)
  | mapValueCount (fieldName : Bytes) (required got : Nat)
  | unsupportedKeyType (got : UInt8) (fieldName : Bytes)
  | illegalMemberCount
  | mapFieldType (fieldName : Bytes) (requested got : UInt8)
  | cannotSkip (dataType : UInt8)
  | expectedQuote
  | illegalHexNumber (text : Bytes) (position size : Nat)
  | illegalEscape (c : UInt8) (position size : Nat)
  | expectedKeyQuote
  | escapeInKey (c : UInt8)
  | arraySizeMismatch (source destination : Nat)
  | noColon
  | expectedObject
  | expectedFieldComma
  | expectedArray
  | expectedEntryComma
  | emptyFieldName (position : Nat)
  | noColonAt (position : Nat)
  | unexpectedCharacter (c : UInt8) (position : Nat)
  | unsupportedBoolean
  | numberError (ec start : Nat)
  | expectedBracket
  | expectedCommaOrEnd
  | expectedDimensions
  | expectedValues
  | expectedEndMarker
  deriving DecidableEq, Repr

inductive Exception
  | outOfRange (index size : Nat)
  | requestOutOfRange (requestedSize : Int) (index stop : Nat)
  | protocol (e : ProtocolException)
  deriving DecidableEq, Repr

abbrev Get (α : Type) := ByteReader Exception α

def throwProtocol {α : Type} (e : ProtocolException) : Get α :=
  fail (.thrown (.protocol e))

/-! ## Sizes -/

/-- A number as `size_t`. -/
def toSize (i : Int) : Nat := if 0 ≤ i then i.toNat else (i % 2 ^ 64).toNat

/-- `SIZE_MAX`. -/
def sizeMax : Nat := 2 ^ 64 - 1

@[simp] theorem toSize_natCast (n : Nat) : toSize n = n := by
  rw [toSize, if_pos (natCast_nonneg n), toNat_natCast]

variable {n : Nat} {s : Scalar} {α : Type}

theorem toSize_sub {k : Nat} (h : k ≤ n) : toSize ((n : Int) - k) = n - k := by
  rw [← ofNat_sub h, toSize_natCast]

/-- A length below 2^31 is read back from four bytes. -/
theorem reads_length (h : n < 2 ^ 31) : Reads (getInt 4 : Get Int) (putInt 4 n) n := by
  have hread := reads_getInt (ε := Exception) 4 (n : Int)
  have hval : (n : Int).bmod (256 ^ 4) = n := by
    rw [bmod_eq_of_le (by omega) (by omega)]
  rwa [hval] at hread

/-! ## Moving and looking around -/

/-- `buffer.skip<false>(bytes)`. -/
def advance (bytes : Int) : Get Unit := do
  let position ← position
  setPosition (toSize ((position : Int) + bytes))

/-- `buffer.skip(bytes)`. -/
def skip (bytes : Int) : Get Unit := do
  let position ← position
  let size ← ByteReader.size
  let target := toSize ((position : Int) + bytes)
  if size < target then fail (.thrown (.outOfRange target size))
  else setPosition target

/-- `buffer.at<uint8_t>(index)`. -/
def atIndex (index : Nat) : Get UInt8 := fun m p =>
  match m.data[index]? with
  | some b => .ok (b, p)
  | none => .error (.thrown (.outOfRange index m.size))

/-- `buffer.asString(index, requestedSize)`. -/
def asString (index : Nat) (requestedSize : Int) : Get Bytes := fun m p =>
  if m.size < index then .error (.thrown (.outOfRange index m.size))
  else if 0 ≤ requestedSize ∧ m.size < index + requestedSize.toNat then
    .error (.thrown (.requestOutOfRange requestedSize index (index + requestedSize.toNat)))
  else if requestedSize < 0 then .ok (m.data.drop index, p)
  else .ok ((m.data.drop index).take requestedSize.toNat, p)

/-! ## Strings and scalars -/

/-- `get<uint8_t>`. -/
def getByte : Get UInt8 := fun m p =>
  match m.byteAt p with
  | some b => .ok (b, p + 1)
  | none => .error .outOfBounds

theorem reads_getByte (b : UInt8) : Reads getByte [b] b := by
  intro m p hat
  rw [getByte, hat.byteAt]
  rfl

/-- `put` of a string with its meta information: the length including the
terminating zero, the characters, the zero. -/
def putString (s : Bytes) : Bytes := putInt 4 ((s.length : Int) + 1) ++ s ++ [0]

/-- `get<std::string>` and `get<std::string_view>`. -/
def getString : Get Bytes := do
  let n ← getInt 4
  let start ← position
  let s ← ByteReader.take (toSize (n - 1))
  setPosition (toSize ((start : Int) + n))
  return s

@[simp] theorem length_putString (s : Bytes) : (putString s).length = s.length + 5 := by
  rw [putString, length_append, length_append, length_putInt, length_singleton]
  omega

theorem reads_getString {s : Bytes} (h : (putString s).length < 2 ^ 31) :
    Reads getString (putString s) s := by
  intro m p hat
  rw [length_putString] at h
  have hlen := reads_length (n := s.length + 1) (by omega)
  rw [putString, append_assoc] at hat
  have hsize : toSize (((s.length + 1 : Nat) : Int) - 1) = s.length := by
    rw [show ((s.length + 1 : Nat) : Int) - 1 = (s.length : Nat) by omega, toSize_natCast]
  have hend : toSize (((p + 4 : Nat) : Int) + ((s.length + 1 : Nat) : Int))
      = p + (putString s).length := by
    rw [← natCast_add, toSize_natCast, length_putString]
    omega
  rw [getString, bind_of_ok (hlen m p hat.left), length_putInt]
  have hchars := hat.right
  rw [length_putInt] at hchars
  have htake := Reads.take (ε := Exception) s m _ hchars.left
  rw [position_bind, hsize, bind_of_ok htake, ByteReader.setPosition_bind, hend]
  rfl

/-- `put` of a number or a string. -/
def putScalar : (s : Scalar) → s.Val → Bytes
  | .bool, b => [if b then 1 else 0]
  | .int w, i => putInt w.size i.val
  | .string, s => putString s

/-- `get` of a number or a string. -/
def getScalar : (s : Scalar) → Get s.Val
  | .bool => (fun bs => !bs.contains 0) <$> ByteReader.take 1
  | .int w => Signed.ofInt w <$> getInt w.size
  | .string => getString

theorem putScalar_pos (s : Scalar) (v : s.Val) : 0 < (putScalar s v).length := by
  cases s with
  | bool => exact Nat.one_pos
  | int w =>
    rw [putScalar, length_putInt]
    cases w <;> decide
  | string =>
    rw [putScalar, length_putString]
    omega

theorem reads_getScalar {v : s.Val} (h : (putScalar s v).length < 2 ^ 31) :
    Reads (getScalar s) (putScalar s v) v := by
  cases s with
  | bool =>
    have hread := (Reads.take (ε := Exception) (putScalar .bool v)).map
      fun bs => !bs.contains 0
    have hval : (!(putScalar .bool v).contains 0) = v := by
      cases v <;> rfl
    rwa [hval] at hread
  | int w =>
    have hread := (reads_getInt (ε := Exception) w.size v.val).map (Signed.ofInt w)
    rw [v.property, Signed.ofInt_val] at hread
    exact hread
  | string => exact reads_getString h

/-! ## Arrays -/

/-- `put` of a vector, a `std::array` or a span. -/
def putArray {s : Scalar} (vs : List s.Val) : Bytes :=
  putInt 4 vs.length ++ vs.flatMap (putScalar s)

/-- The elements that `getArray` copies to its target. -/
def getArray (s : Scalar) (requestedSize : Nat) : Get (List s.Val) := do
  let wireSize ← getInt 4
  let size ← ByteReader.size
  let position ← position
  let arraySize := min (toSize wireSize) (toSize ((size : Int) - position))
  (getScalar s).times (min arraySize requestedSize)

theorem length_le_flatMap {enc : α → Bytes} (h : ∀ a, 0 < (enc a).length) :
    ∀ as : List α, as.length ≤ (as.flatMap enc).length
  | [] => Nat.le_refl 0
  | a :: as => by
    rw [flatMap_cons, length_append, length_cons]
    have hrest := length_le_flatMap h as
    have hfirst := h a
    omega

theorem length_le_of_mem_flatMap {enc : α → Bytes} {a : α} {as : List α}
    (h : a ∈ as) : (enc a).length ≤ (as.flatMap enc).length := by
  rw [length_flatMap]
  exact single_le_sum (by simp) _ (mem_map_of_mem h)

theorem length_le_putArray (vs : List s.Val) : vs.length + 4 ≤ (putArray vs).length := by
  rw [putArray, length_append, length_putInt]
  have hvals := length_le_flatMap (putScalar_pos s) vs
  omega

/-- Scalars one behind the other. -/
theorem reads_scalars (vs : List s.Val) (h : (vs.flatMap (putScalar s)).length < 2 ^ 31) :
    Reads ((getScalar s).times vs.length) (vs.flatMap (putScalar s)) vs :=
  Reads.times fun _ hv =>
    reads_getScalar (Nat.lt_of_le_of_lt (length_le_of_mem_flatMap hv) h)

theorem reads_getArray {vs : List s.Val} (requestedSize : Nat)
    (h : (putArray vs).length < 2 ^ 31) (hreq : vs.length ≤ requestedSize) :
    Reads (getArray s requestedSize) (putArray vs) vs := by
  intro m p hat
  have hcnt := length_le_putArray vs
  rw [putArray, length_append, length_putInt] at h hcnt
  have hlen := reads_length (n := vs.length) (by omega)
  rw [putArray] at hat
  have hvals := hat.right
  rw [length_putInt] at hvals
  have hend := hvals.le_size
  -- neither the rest of the buffer nor the request cuts the array short
  have hsize : min (min (toSize (vs.length : Int)) (toSize ((m.size : Int) - ((p + 4 : Nat) : Int))))
      requestedSize = vs.length := by
    rw [toSize_natCast, toSize_sub (by omega)]
    omega
  rw [getArray, bind_of_ok (hlen m p hat.left), length_putInt]
  rw [ByteReader.size_bind, position_bind, hsize, reads_scalars vs (by omega) m _ hvals,
    putArray, length_append, length_putInt, Nat.add_assoc]

/-- The elements copied over the front of the target: a vector takes their
number, a `std::array` keeps its own and must be large enough. -/
def Seq.fill {α : Type} : {n : Option Nat} → Seq n α → List α → Option (Seq n α)
  | none, _, vs => some vs
  | some n, old, vs =>
    if h : vs.length ≤ n then
      some ⟨vs ++ old.val.drop vs.length, by
        rw [length_append, length_drop, old.property]
        omega⟩
    else none

theorem Seq.fill_toList : {n : Option Nat} → (old v : Seq n α) → old.fill v.toList = some v
  | none, _, _ => rfl
  | some n, old, v => by
    have hlen : v.toList.length = n := v.property
    have hkept : old.val.drop v.toList.length = [] := by
      rw [hlen, drop_eq_nil_iff, old.property]
    rw [Seq.fill, dif_pos hlen.le]
    refine congrArg some (Subtype.ext ?_)
    show v.toList ++ old.val.drop v.toList.length = v.val
    rw [hkept, append_nil]
    rfl

/-- `getArray(target, requestedSize)`. -/
def getArrayInto (s : Scalar) (n : Option Nat) (requestedSize : Nat) (old : Seq n s.Val) :
    Get (Seq n s.Val) := do
  let vs ← getArray s requestedSize
  match old.fill vs with
  | some v => pure v
  | none => fail .undefined

theorem reads_getArrayInto {n : Option Nat} {requestedSize : Nat}
    {old v : Seq n s.Val} (h : (putArray v.toList).length < 2 ^ 31)
    (hreq : v.toList.length ≤ requestedSize) :
    Reads (getArrayInto s n requestedSize old) (putArray v.toList) v := by
  intro m p hat
  rw [getArrayInto, bind_of_ok (reads_getArray requestedSize h hreq m p hat), Seq.fill_toList]
  rfl

/-! ## Dimensions and multi-dimensional arrays -/

/-- A number of elements or a dimension as the `int32_t` on the wire. -/
def toWire (n : Nat) : Signed .w32 := Signed.ofInt .w32 n

/-- `static_cast<uint32_t>` of a number from the wire. -/
def ofWire (i : Signed .w32) : UInt32 := UInt32.ofInt i.val

/-- `put` of a `std::array<int32_t, n>`. -/
def putDims (dims : List (Signed .w32)) : Bytes := putArray (s := .int .w32) dims

/-- `getArray<int32_t, n>()`. -/
def getDims (n : Nat) : Get (List.Vector (Signed .w32) n) :=
  getArrayInto (.int .w32) (some n) n (Seq.default (Signed.ofInt .w32 0) (some n))

/-- The dimensions and the elements, as YaS and CmwLight write a
`MultiArray`. -/
def putMultiArray {s : Scalar} {n : Nat} (v : RowMajor s.Val n) : Bytes :=
  putDims (v.val.dims.map fun d => toWire d.toNat) ++ putArray v.val.elements

/-- The dimensions and the elements; strides and offsets are computed anew. -/
def getMultiArray (s : Scalar) (n : Nat) : Get (RowMajor s.Val n) := do
  let dimWire ← getDims n
  let elements ← getArray s sizeMax
  return RowMajor.mk elements (dimWire.map ofWire)

theorem val_toWire (h : n < 2 ^ 31) : (toWire n).val = n := by
  rw [toWire, Signed.val_ofInt, IntWidth.size, bmod_eq_of_le (by omega) (by omega)]

theorem ofWire_toWire (d : UInt32) : ofWire (toWire d.toNat) = d := by
  have hlt := d.toNat_lt
  have hmod : ((d.toNat : Int).bmod (256 ^ 4)) % 2 ^ 32 = d.toNat := by
    have h := bmod_emod (m := 256 ^ 4) (x := (d.toNat : Int))
    norm_num at h ⊢
    rw [h, emod_eq_of_lt (by omega) (by omega)]
  rw [ofWire, toWire, Signed.val_ofInt, IntWidth.size, UInt32.ofInt, hmod, toNat_natCast,
    UInt32.ofNat_toNat]

theorem reads_getDims (dims : List.Vector (Signed .w32) n)
    (h : (putDims dims.val).length < 2 ^ 31) : Reads (getDims n) (putDims dims.val) dims :=
  reads_getArrayInto h dims.property.le

theorem reads_getMultiArray {v : RowMajor s.Val n} (h : (putMultiArray v).length < 2 ^ 31) :
    Reads (getMultiArray s n) (putMultiArray v) v := by
  rw [putMultiArray, length_append] at h
  have hsize := length_le_putArray v.val.elements
  have hdims := reads_getDims (v.dims.map fun d => toWire d.toNat)
    (show (putDims (v.val.dims.map _)).length < 2 ^ 31 by omega)
  have hdata := reads_getArray sizeMax
    (show (putArray v.val.elements).length < 2 ^ 31 by omega) (by rw [sizeMax]; omega)
  have hval : RowMajor.mk v.val.elements
      ((v.dims.map fun d => toWire d.toNat).map ofWire) = v := by
    have hdims : (v.dims.map fun d => toWire d.toNat).map ofWire = v.dims := by
      refine Subtype.ext ?_
      show (v.val.dims.map fun d => toWire d.toNat).map ofWire = v.val.dims
      rw [map_map]
      exact map_id'' ofWire_toWire _
    rw [hdims, RowMajor.mk_dims]
  have harray := hdata.map fun elements =>
    RowMajor.mk elements ((v.dims.map fun d => toWire d.toNat).map ofWire)
  rw [hval] at harray
  exact hdims.bind harray

end OpenCmw.Io
