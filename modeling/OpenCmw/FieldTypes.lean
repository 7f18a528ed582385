import OpenCmw.ByteReader
import OpenCmw.Containers
import OpenCmw.Uri

/-!
# Reflectable types and their values

The serialisers are templates over the members that a struct lists for
reflection. Here such a type is data: `Members` is the list of members
with their names and types, `Members.Val` the type of its values, so a
value of the wrong shape cannot be written down. A member is a plain one
(`leaf`: a number, a string or a container), a nested struct, or an array
of structs, and it is held directly or by a smart pointer.

A type that refers to itself through a pointer is covered level by level:
no function below looks further into a type than the value reaches.
-/

namespace OpenCmw.Io

open List

/-! ## Scalars -/

/-- `int8_t` to `int64_t`. -/
inductive IntWidth
  | w8
  | w16
  | w32
  | w64
  deriving DecidableEq, Repr

/-- `sizeof`. -/
def IntWidth.size : IntWidth → Nat
  | w8 => 1
  | w16 => 2
  | w32 => 4
  | w64 => 8

/-- The values of a signed machine integer: what a conversion to it leaves
alone. -/
def Signed (w : IntWidth) : Type := {i : Int // i.bmod (256 ^ w.size) = i}

instance (w : IntWidth) : LinearOrder (Signed w) :=
  inferInstanceAs (LinearOrder {i : Int // i.bmod (256 ^ w.size) = i})

/-- `static_cast<intN_t>(i)`. -/
def Signed.ofInt (w : IntWidth) (i : Int) : Signed w :=
  ⟨i.bmod (256 ^ w.size), Int.bmod_bmod⟩

theorem Signed.val_ofInt (w : IntWidth) (i : Int) :
    (Signed.ofInt w i).val = i.bmod (256 ^ w.size) := rfl

theorem Signed.ofInt_val {w : IntWidth} (i : Signed w) : Signed.ofInt w i.val = i :=
  Subtype.ext i.property

inductive Scalar
  | bool
  | int (w : IntWidth)
  | string
  deriving DecidableEq, Repr

@[reducible] def Scalar.Val : Scalar → Type
  | bool => Bool
  | int w => Signed w
  | string => Bytes

instance : (s : Scalar) → LinearOrder s.Val
  | .bool => inferInstanceAs (LinearOrder Bool)
  | .int w => inferInstanceAs (LinearOrder (Signed w))
  | .string => inferInstanceAs (LinearOrder (List UInt8))

/-- The value-initialised scalar. -/
def Scalar.default : (s : Scalar) → s.Val
  | bool => false
  | int w => Signed.ofInt w 0
  | string => []

/-! ## Containers -/

/-- `std::vector` (`none`) or `std::array` of a size. -/
def Seq : Option Nat → Type → Type
  | none, α => List α
  | some n, α => List.Vector α n

def Seq.toList {α : Type} : {n : Option Nat} → Seq n α → List α
  | none, l => l
  | some _, v => List.Vector.toList v

def Seq.map {α β : Type} (f : α → β) : {n : Option Nat} → Seq n α → Seq n β
  | none, l => List.map f l
  | some _, v => List.Vector.map f v

variable {α : Type} {covers : α → α → Prop}

theorem Seq.toList_map {β : Type} (f : α → β) : {n : Option Nat} → (v : Seq n α) →
    (v.map f).toList = v.toList.map f
  | none, _ => rfl
  | some _, ⟨_, _⟩ => rfl

theorem Seq.map_id : {n : Option Nat} → (v : Seq n α) → v.map id = v
  | none, l => List.map_id l
  | some _, ⟨l, _⟩ => Subtype.ext (List.map_id l)

def Seq.default {α : Type} (a : α) : (n : Option Nat) → Seq n α
  | none => []
  | some n => List.Vector.replicate n a

instance {α : Type} [DecidableEq α] : (n : Option Nat) → DecidableEq (Seq n α)
  | none => inferInstanceAs (DecidableEq (List α))
  | some n => inferInstanceAs (DecidableEq (List.Vector α n))

/-- `MultiArray<T, n>`, all of its fields. -/
structure MultiArray (α : Type) where
  elements : List α
  elementCount : UInt32
  dims : List UInt32
  strides : List UInt32
  offsets : List UInt32
  deriving DecidableEq

/-- The downward loop over the dimensions that both the constructors and
the deserialisers run: the number of elements and the strides. -/
def rowMajorLayout : List UInt32 → UInt32 × List UInt32
  | [] => (0, [])
  | [d] => (d, [1])
  | d :: d' :: ds =>
    let (count, strides) := rowMajorLayout (d' :: ds)
    (count * d, strides.headD 1 * d' :: strides)

/-- `MultiArray(elements, dimensions)`: the elements in row-major order. -/
def MultiArray.rowMajor {α : Type} (elements : List α) (dims : List UInt32) : MultiArray α where
  elements := elements
  elementCount := (rowMajorLayout dims).1
  dims := dims
  strides := (rowMajorLayout dims).2
  offsets := replicate dims.length 0

/-- A row-major `MultiArray` of `n` dimensions. -/
def RowMajor (α : Type) (n : Nat) : Type :=
  {a : MultiArray α // a.dims.length = n ∧ a = .rowMajor a.elements a.dims}

instance {α : Type} [DecidableEq α] (n : Nat) : DecidableEq (RowMajor α n) :=
  inferInstanceAs (DecidableEq (Subtype _))

def RowMajor.mk {α : Type} {n : Nat} (elements : List α) (dims : List.Vector UInt32 n) :
    RowMajor α n :=
  ⟨.rowMajor elements dims.val, dims.property, rfl⟩

def RowMajor.dims {α : Type} {n : Nat} (a : RowMajor α n) : List.Vector UInt32 n :=
  ⟨a.val.dims, a.property.1⟩

theorem RowMajor.mk_dims {n : Nat} (a : RowMajor α n) : RowMajor.mk a.val.elements a.dims = a :=
  Subtype.ext a.property.2.symm

inductive MapKind
  | map
  | unorderedMap
  deriving DecidableEq, Repr

/-- The types of members that are not structs. A `multiArray` with `n` has
`n + 1` dimensions. -/
inductive ValueTy
  | scalar (s : Scalar)
  | array (n : Option Nat) (s : Scalar)
  | set (s : Scalar)
  | multiArray (s : Scalar) (n : Nat)
  | map (kind : MapKind) (key : Scalar) (value : ValueTy)
  deriving DecidableEq, Repr

/-- `is_supported_number<T> || is_stringlike<T>`. -/
def ValueTy.scalar? : ValueTy → Option Scalar
  | scalar s => some s
  | _ => none

/-- The values of a type. A map is its sorted content, also where the
program holds it in a hash table; `Abi.order` gives the order of a walk
through it. -/
@[reducible] def ValueTy.Val : ValueTy → Type
  | scalar s => s.Val
  | array n s => Seq n s.Val
  | set s => SortedMap s.Val Unit
  | multiArray s n => RowMajor s.Val (n + 1)
  | map _ key value => SortedMap key.Val value.Val

def ValueTy.default : (t : ValueTy) → t.Val
  | scalar s => s.default
  | array n s => Seq.default s.default n
  | set _ => ∅
  | multiArray _ n => RowMajor.mk [] (List.Vector.replicate (n + 1) 0)
  | map _ _ _ => ∅

instance ValueTy.decEqVal : (t : ValueTy) → DecidableEq t.Val
  | scalar s => inferInstanceAs (DecidableEq s.Val)
  | array n s => inferInstanceAs (DecidableEq (Seq n s.Val))
  | set s => inferInstanceAs (DecidableEq (SortedMap s.Val Unit))
  | multiArray s n => inferInstanceAs (DecidableEq (RowMajor s.Val (n + 1)))
  | map _ key value =>
    have := ValueTy.decEqVal value
    inferInstanceAs (DecidableEq (SortedMap key.Val value.Val))

/-- What the compiler and the standard library decide: the text of
`typeid(T).name()`, and the order in which a hash table is walked. -/
structure Abi where
  typeidName : ValueTy → Bytes
  hashOrder : {K V : Type} → List (K × V) → List (K × V)
  perm : ∀ {K V : Type} (l : List (K × V)), (hashOrder l).Perm l

/-- The entries of a map in the order of a walk through it. -/
def Abi.order (abi : Abi) {K V : Type} [LinearOrder K] (kind : MapKind) (m : SortedMap K V) :
    List (K × V) :=
  match kind with
  | .map => m.entries
  | .unorderedMap => abi.hashOrder m.entries

theorem Abi.order_perm (abi : Abi) {K V : Type} [LinearOrder K] (kind : MapKind)
    (m : SortedMap K V) : (abi.order kind m).Perm m.entries := by
  cases kind with
  | map => exact List.Perm.refl _
  | unorderedMap => exact abi.perm _

/-- A platform whose hash tables are walked in the order of the keys. -/
def sortedAbi : Abi := ⟨fun _ => [], fun l => l, fun l => List.Perm.refl l⟩

/-! ## Structs -/

/-- A character of a C++ identifier (bytes from 128 on are those of
extended characters). -/
def isIdentifierChar (c : UInt8) : Bool := isAlnum c || c == chr '_' || 128 ≤ c

def isIdentifier (name : Bytes) : Bool :=
  !name.isEmpty && name.all isIdentifierChar && !name.head?.any isDigit

/-- The name of a member. -/
structure Identifier where
  bytes : Bytes
  valid : isIdentifier bytes = true
  deriving DecidableEq

theorem isIdentifier_a : isIdentifier (str "a") = true := by decide

theorem isIdentifier_m : isIdentifier (str "m") = true := by decide

theorem isIdentifier_on : isIdentifier (str "on") = true := by decide

theorem isIdentifier_gain : isIdentifier (str "gain") = true := by decide

theorem Identifier.ne_nil (name : Identifier) : name.bytes ≠ [] := by
  have h := name.valid
  rintro hnil
  rw [hnil] at h
  cases h

theorem Identifier.isIdentifierChar_of_mem (name : Identifier) {c : UInt8} (hc : c ∈ name.bytes) :
    isIdentifierChar c = true := by
  have h := name.valid
  rw [isIdentifier, Bool.and_eq_true, Bool.and_eq_true] at h
  exact all_eq_true.mp h.1.2 c hc

/-- A member is held by value or by a smart pointer. -/
inductive Holder
  | direct
  | pointer
  deriving DecidableEq, Repr

def Slot : Holder → Type → Type
  | .direct, α => α
  | .pointer, α => Option α

namespace Slot

variable {α : Type}

/-- `unwrapPointer`, with nothing for a null pointer. -/
def get? : {h : Holder} → Slot h α → Option α
  | .direct, a => some a
  | .pointer, p => p

/-- The object that `unwrapPointerCreateIfAbsent` leads to. -/
def getOrCreate (d : α) {h : Holder} (x : Slot h α) : α := x.get?.getD d

/-- The slot whose object is `a`. -/
def holding : (h : Holder) → α → Slot h α
  | .direct, a => a
  | .pointer, a => some a

/-- The default-constructed slot. -/
def default (d : α) : (h : Holder) → Slot h α
  | .direct => d
  | .pointer => none

instance [DecidableEq α] : (h : Holder) → DecidableEq (Slot h α)
  | .direct => inferInstanceAs (DecidableEq α)
  | .pointer => inferInstanceAs (DecidableEq (Option α))

theorem get?_holding : {h : Holder} → {a : α} → (holding h a).get? = some a
  | .direct, _ => rfl
  | .pointer, _ => rfl

theorem eq_of_get?_default {d : α} : {h : Holder} → {a : α} → (default d h).get? = some a → d = a
  | .direct, _, h => Option.some.inj h

theorem getOrCreate_default (d : α) : {h : Holder} → (default d h).getOrCreate d = d
  | .direct => rfl
  | .pointer => rfl

theorem eq_holding_of_get? : {h : Holder} → {x : Slot h α} → {a : α} → x.get? = some a →
    x = holding h a
  | .direct, _, _, h => Option.some.inj h
  | .pointer, _, _, h => h

theorem eq_of_get?_eq_none : {h : Holder} → {x y : Slot h α} → x.get? = none → y.get? = none → x = y
  | .pointer, _, _, hx, hy => Eq.trans hx (Eq.symm hy)

end Slot

/-- The members of a struct type, in the order they are listed for
reflection. -/
inductive Members
  | nil
  | leaf (name : Identifier) (holder : Holder) (ty : ValueTy) (rest : Members)
  | nested (name : Identifier) (holder : Holder) (typeName : Bytes) (inner rest : Members)
  | structs (name : Identifier) (holder : Holder) (n : Option Nat) (typeName : Bytes)
      (inner rest : Members)
  deriving DecidableEq

/-- A struct type: its reflected name and its members. -/
structure StructTy where
  typeName : Bytes
  members : Members
  deriving DecidableEq

namespace Members

@[reducible] def Val : Members → Type
  | nil => Unit
  | leaf _ h ty rest => Slot h ty.Val × rest.Val
  | nested _ h _ inner rest => Slot h inner.Val × rest.Val
  | structs _ h n _ inner rest => Slot h (Seq n inner.Val) × rest.Val

def default : (ms : Members) → ms.Val
  | nil => ()
  | leaf _ h ty rest => (Slot.default ty.default h, rest.default)
  | nested _ h _ inner rest => (Slot.default inner.default h, rest.default)
  | structs _ h n _ inner rest => (Slot.default (Seq.default inner.default n) h, rest.default)

instance decEqVal : (ms : Members) → DecidableEq ms.Val
  | nil => inferInstanceAs (DecidableEq Unit)
  | leaf _ h ty rest =>
    have := decEqVal rest
    inferInstanceAs (DecidableEq (Slot h ty.Val × rest.Val))
  | nested _ h _ inner rest =>
    have := decEqVal inner
    have := decEqVal rest
    inferInstanceAs (DecidableEq (Slot h inner.Val × rest.Val))
  | structs _ h n _ inner rest =>
    have := decEqVal inner
    have := decEqVal rest
    inferInstanceAs (DecidableEq (Slot h (Seq n inner.Val) × rest.Val))

end Members

namespace Members

/-- The members of a struct that come one behind the other. -/
def append : Members → Members → Members
  | nil, ms => ms
  | leaf name h ty rest, ms => leaf name h ty (rest.append ms)
  | nested name h typeName inner rest, ms => nested name h typeName inner (rest.append ms)
  | structs name h n typeName inner rest, ms => structs name h n typeName inner (rest.append ms)

def appendVal : (pre : Members) → {ms : Members} → pre.Val → ms.Val → (pre.append ms).Val
  | nil, _, _, v => v
  | leaf _ _ _ rest, _, (x, xs), v => (x, rest.appendVal xs v)
  | nested _ _ _ _ rest, _, (x, xs), v => (x, rest.appendVal xs v)
  | structs _ _ _ _ _ rest, _, (x, xs), v => (x, rest.appendVal xs v)

/-- The values of the members behind the first ones. -/
def dropVal : (pre : Members) → {ms : Members} → (pre.append ms).Val → ms.Val
  | nil, _, v => v
  | leaf _ _ _ rest, _, (_, xs) => rest.dropVal xs
  | nested _ _ _ _ rest, _, (_, xs) => rest.dropVal xs
  | structs _ _ _ _ _ rest, _, (_, xs) => rest.dropVal xs

theorem default_append : (pre ms : Members) →
    (pre.append ms).default = pre.appendVal pre.default ms.default
  | nil, _ => rfl
  | leaf _ _ _ rest, ms => congrArg _ (rest.default_append ms)
  | nested _ _ _ _ rest, ms => congrArg _ (rest.default_append ms)
  | structs _ _ _ _ _ rest, ms => congrArg _ (rest.default_append ms)

theorem dropVal_appendVal : (pre : Members) → {ms : Members} → (x : pre.Val) → (v : ms.Val) →
    pre.dropVal (pre.appendVal x v) = v
  | nil, _, _, _ => rfl
  | leaf _ _ _ rest, _, (_, xs), v => rest.dropVal_appendVal xs v
  | nested _ _ _ _ rest, _, (_, xs), v => rest.dropVal_appendVal xs v
  | structs _ _ _ _ _ rest, _, (_, xs), v => rest.dropVal_appendVal xs v

end Members

/-- The name of a field on the wire: a leading `x_` is dropped, so that a
member can stand for a field whose name is no identifier. -/
def sanitizeFieldName (name : Bytes) : Bytes :=
  if 2 < name.length ∧ startsWith name (str "x_") = true then name.drop 2 else name

namespace Members

/-- The wire names of the members. -/
def names : Members → List Bytes
  | nil => []
  | leaf name _ _ rest => sanitizeFieldName name.bytes :: rest.names
  | nested name _ _ _ rest => sanitizeFieldName name.bytes :: rest.names
  | structs name _ _ _ _ rest => sanitizeFieldName name.bytes :: rest.names

/-- `getNumberOfNonNullSubfields`, before it is narrowed to 16 bits. -/
def written : (ms : Members) → ms.Val → Nat
  | nil, _ => 0
  | leaf _ _ _ rest, (x, xs) => (if x.get?.isSome then 1 else 0) + rest.written xs
  | nested _ _ _ _ rest, (x, xs) => (if x.get?.isSome then 1 else 0) + rest.written xs
  | structs _ _ _ _ _ rest, (x, xs) => (if x.get?.isSome then 1 else 0) + rest.written xs

end Members

/-- `findMemberIndex`: the first member with this wire name. -/
def findMemberIndex (names : List Bytes) (fieldName : Bytes) : Option Nat :=
  names.findIdx? (· == fieldName)

theorem findMemberIndex_of_nodup {pre post : List Bytes} {name : Bytes}
    (h : (pre ++ name :: post).Nodup) :
    findMemberIndex (pre ++ name :: post) name = some pre.length := by
  rw [findMemberIndex, findIdx?_append]
  have hpre : pre.findIdx? (· == name) = none := by
    rw [findIdx?_eq_none_iff]
    intro x hx
    have hne : x ≠ name := by
      rintro rfl
      exact (nodup_append.mp h).2.2 x hx x (mem_cons_self ..) rfl
    exact beq_eq_false_iff_ne.mpr hne
  rw [hpre, findIdx?_cons, beq_self_eq_true]
  simp

/-! ## Conditions on types -/

namespace Members

/-- How many structs lie inside each other below this one. An array of
structs starts again. -/
def depth : Members → Nat
  | nil => 0
  | leaf _ _ _ rest => rest.depth
  | nested _ _ _ inner rest => max (inner.depth + 1) rest.depth
  | structs _ _ _ _ inner rest => max inner.depth rest.depth

/-- No struct has two members with the same name on the wire. -/
def DistinctNames : Members → Prop
  | nil => True
  | leaf name _ _ rest => sanitizeFieldName name.bytes ∉ rest.names ∧ rest.DistinctNames
  | nested name _ _ inner rest =>
    sanitizeFieldName name.bytes ∉ rest.names ∧ inner.DistinctNames ∧ rest.DistinctNames
  | structs name _ _ _ inner rest =>
    sanitizeFieldName name.bytes ∉ rest.names ∧ inner.DistinctNames ∧ rest.DistinctNames

instance decidableDistinctNames : (ms : Members) → Decidable ms.DistinctNames
  | nil => inferInstanceAs (Decidable True)
  | leaf name _ _ rest =>
    have := decidableDistinctNames rest
    inferInstanceAs (Decidable (sanitizeFieldName name.bytes ∉ rest.names ∧ rest.DistinctNames))
  | nested name _ _ inner rest =>
    have := decidableDistinctNames inner
    have := decidableDistinctNames rest
    inferInstanceAs (Decidable (sanitizeFieldName name.bytes ∉ rest.names ∧
      inner.DistinctNames ∧ rest.DistinctNames))
  | structs name _ _ _ inner rest =>
    have := decidableDistinctNames inner
    have := decidableDistinctNames rest
    inferInstanceAs (Decidable (sanitizeFieldName name.bytes ∉ rest.names ∧
      inner.DistinctNames ∧ rest.DistinctNames))

/-- Every nested struct has as many members as `size` gives for the name of
its field. The structs of an array are read as roots of their own. -/
def Sized (root : Bytes) : Members → (size : Bytes → Nat) → Prop
  | nil, _ => True
  | leaf _ _ _ rest, size => rest.Sized root size
  | nested name _ _ inner rest, size =>
    inner.names.length = size (sanitizeFieldName name.bytes) ∧ inner.Sized root size ∧
      rest.Sized root size
  | structs _ _ _ _ inner rest, size =>
    (∃ size' : Bytes → Nat, size' root = inner.names.length ∧ inner.Sized root size') ∧
      rest.Sized root size

theorem DistinctNames.nodup : ∀ {ms : Members}, ms.DistinctNames → ms.names.Nodup
  | nil, _ => nodup_nil
  | leaf _ _ _ _, h => nodup_cons.mpr ⟨h.1, h.2.nodup⟩
  | nested _ _ _ _ _, h | structs _ _ _ _ _ _, h => nodup_cons.mpr ⟨h.1, h.2.2.nodup⟩

end Members

/-! ## Overwriting

Reading a value into an object has to leave nothing of what the object
held. Numbers, strings and most containers are replaced; a map keeps its
other keys where the reader does not clear it, and a null pointer is not
written at all, so nothing resets the pointer it is read into. -/

/-- Reading `v` into a plain member that holds `old` leaves `v`, also where
a map is not cleared first. -/
def ValueTy.Covers : (t : ValueTy) → (v old : t.Val) → Prop
  | map _ _ _, v, old => ∀ k ∈ old.keys, k ∈ v.keys
  | _, _, _ => True

theorem ValueTy.covers_default : (t : ValueTy) → (v : t.Val) → t.Covers v t.default
  | scalar _, _ => trivial
  | array _ _, _ => trivial
  | set _, _ => trivial
  | multiArray _ _, _ => trivial
  | map _ _ _, _ => fun _ h => absurd h not_mem_nil

/-- A null pointer must be null already. -/
def Slot.Covers {α : Type} (covers : α → α → Prop) {h : Holder} (x old : Slot h α) : Prop :=
  match x.get?, old.get? with
  | some a, some b => covers a b
  | some _, none => True
  | none, some _ => False
  | none, none => True

theorem Slot.Covers.getOrCreate {h : Holder} {x old : Slot h α}
    {a d : α} (hcov : Slot.Covers covers x old) (hx : x.get? = some a) (hd : covers a d) :
    covers a (old.getOrCreate d) := by
  rw [Slot.Covers, hx] at hcov
  rw [Slot.getOrCreate]
  cases hold : old.get? with
  | none => exact hd
  | some b =>
    rw [hold] at hcov
    exact hcov

theorem Slot.Covers.eq_of_none {h : Holder} {x old : Slot h α}
    (hcov : Slot.Covers covers x old) (hx : x.get? = none) : old = x := by
  rw [Slot.Covers, hx] at hcov
  cases hold : old.get? with
  | none => exact Slot.eq_of_get?_eq_none hold hx
  | some b =>
    rw [hold] at hcov
    exact hcov.elim

theorem Slot.covers_default {d : α}
    (hd : ∀ a, covers a d) : {h : Holder} → (x : Slot h α) → Slot.Covers covers x (.default d h)
  | .direct, x => hd x
  | .pointer, some _ => trivial
  | .pointer, none => trivial

namespace Members

/-- Reading the members of `v` into an object that holds `old` leaves `v`. -/
def Covers : (ms : Members) → (v old : ms.Val) → Prop
  | nil, _, _ => True
  | leaf _ _ ty rest, (x, xs), (y, ys) => Slot.Covers ty.Covers x y ∧ rest.Covers xs ys
  | nested _ _ _ inner rest, (x, xs), (y, ys) => Slot.Covers inner.Covers x y ∧ rest.Covers xs ys
  | structs _ _ _ _ _ rest, (x, xs), (y, ys) =>
    Slot.Covers (fun _ _ => True) x y ∧ rest.Covers xs ys

/-- A default-constructed object takes any value. -/
theorem covers_default : (ms : Members) → (v : ms.Val) → ms.Covers v ms.default
  | nil, _ => trivial
  | leaf _ _ ty rest, (x, xs) =>
    ⟨Slot.covers_default ty.covers_default x, rest.covers_default xs⟩
  | nested _ _ _ inner rest, (x, xs) =>
    ⟨Slot.covers_default inner.covers_default x, rest.covers_default xs⟩
  | structs _ _ _ _ _ rest, (x, xs) =>
    ⟨Slot.covers_default (fun _ => trivial) x, rest.covers_default xs⟩

end Members

end OpenCmw.Io
