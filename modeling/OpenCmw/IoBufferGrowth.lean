import OpenCmw.IoBuffer

/-!
# How the serialisation buffer grows

The memory behind `put`: each reserves space by an estimate of what it
writes, and the nested calls reserve again. `Holds` says that a buffer has a
block of its capacity and that the first `size` cells of it are the given
bytes; every operation keeps it with the bytes that it ought to leave.

A write is defined below the capacity only, so that a run that returns has
written nowhere else. Sizes are natural numbers: `size_t` does not overflow.
-/

namespace OpenCmw.Io

open List

/-- `buffer` is the memory at `_buffer`, empty for a null pointer. Cells that
have not been written are `none`. -/
structure IoBuffer where
  buffer : List (Option UInt8) := []
  size : Nat := 0
  capacity : Nat := 0

inductive MetaInfo where
  | withMeta
  | withoutMeta

/-- What the buffer's memory comes from. -/
inductive Resource where
  | reallocator
  | other

namespace IoBuffer

variable (r : Resource) (b : IoBuffer)

/-- `realloc` keeps all that fits, the copy the bytes in use. -/
def reallocate (capacity : Nat) : IoBuffer :=
  if capacity = 0 then { b with buffer := [], capacity }
  else if b.capacity = capacity ∧ b.buffer ≠ [] then b
  else if b.buffer = [] then { b with buffer := replicate capacity none, capacity }
  else
    let kept := b.buffer.take (match r with
      | .reallocator => capacity
      | .other => min b.size capacity)
    { b with buffer := kept ++ replicate (capacity - kept.length) none, capacity }

def create (initialCapacity : Nat) : IoBuffer :=
  if initialCapacity > 0 then reallocate r {} initialCapacity else {}

def reserve (minCapacity : Nat) : IoBuffer :=
  if minCapacity < b.capacity then b else b.reallocate r minCapacity

def shrinkToFit : IoBuffer := b.reallocate r b.size

def reserveSpare (additionalCapacity : Nat) : IoBuffer :=
  if additionalCapacity ≥ b.capacity - b.size then b.reserve r ((b.size + additionalCapacity) * 4)
  else b

def resize (newSize : Nat) : IoBuffer :=
  { if newSize > b.capacity then b.reserve r newSize else b with size := newSize }

def clear : IoBuffer := { b with size := 0 }

/-- `std::memmove(_buffer + _size, ...)` and the new `_size`. -/
def append (data : Bytes) : Option IoBuffer :=
  if b.size + data.length ≤ b.capacity then
    some { b with
      buffer := b.buffer.take b.size ++ (data.map some ++ b.buffer.drop (b.size + data.length))
      size := b.size + data.length }
  else none

/-- The zero behind the bytes. -/
def terminate : Option IoBuffer :=
  if b.size < b.capacity then some { b with buffer := b.buffer.set b.size (some 0) } else none

/-- `put` of a number of any type, given by its bytes. -/
def putNumber (value : Bytes) : Option IoBuffer := (b.reserveSpare r value.length).append value

def putString (metaInfo : MetaInfo) (value : Bytes) : Option IoBuffer :=
  let b := b.reserveSpare r (value.length + 4 + 1)
  match metaInfo with
  | .withMeta => do
    let b ← b.putNumber r (putInt 4 ((value.length : Int) + 1))
    let b ← b.append value
    b.putNumber r [0]
  | .withoutMeta => b.append value >>= terminate

/-- `put` of a span of numbers of `n` bytes each; `bool`s are put one by one. -/
def putNumbers {n : Nat} (isBool : Bool) (values : List (List.Vector UInt8 n)) : Option IoBuffer := do
  let b := b.reserveSpare r (values.length * n + 4 + n)
  let b ← b.putNumber r (putInt 4 values.length)
  if isBool then values.foldlM (fun b value => b.putNumber r value.val) b
  else b.append (values.flatMap (·.val))

def putStrings (values : List Bytes) : Option IoBuffer := do
  let b := b.reserveSpare r (values.length * 25 + 4 + 1)
  let b ← b.putNumber r (putInt 4 values.length)
  values.foldlM (fun b value => b.putString r .withMeta value) b

def putBoolContainer (metaInfo : MetaInfo) (values : List Bool) : Option IoBuffer := do
  let b ← match metaInfo with
    | .withMeta => (b.reserveSpare r (values.length + 4)).putNumber r (putInt 4 values.length)
    | .withoutMeta => some (b.reserveSpare r values.length)
  values.foldlM (fun b value => b.putNumber r (putScalar .bool value)) b

inductive Op where
  | number (value : Bytes)
  | string (metaInfo : MetaInfo) (value : Bytes)
  | numbers {n : Nat} (isBool : Bool) (values : List (List.Vector UInt8 n))
  | strings (values : List Bytes)
  | bools (metaInfo : MetaInfo) (values : List Bool)
  | resize (newSize : Nat)
  | reserve (minCapacity : Nat)
  | reserveSpare (additionalCapacity : Nat)
  | shrinkToFit
  | clear

def step : Op → Option IoBuffer
  | .number value => b.putNumber r value
  | .string metaInfo value => b.putString r metaInfo value
  | .numbers isBool values => b.putNumbers r isBool values
  | .strings values => b.putStrings r values
  | .bools metaInfo values => b.putBoolContainer r metaInfo values
  | .resize newSize => some (b.resize r newSize)
  | .reserve minCapacity => some (b.reserve r minCapacity)
  | .reserveSpare additionalCapacity => some (b.reserveSpare r additionalCapacity)
  | .shrinkToFit => some (b.shrinkToFit r)
  | .clear => some b.clear

/-- What the operation makes of the bytes. -/
def Op.apply (bytes : Bytes) : Op → Bytes
  | number value | string .withoutMeta value => bytes ++ value
  | string .withMeta value => bytes ++ Io.putString value
  | numbers _ values => bytes ++ (putInt 4 values.length ++ values.flatMap (·.val))
  | strings values => bytes ++ (putInt 4 values.length ++ values.flatMap Io.putString)
  | bools .withMeta values => bytes ++ putArray (s := .bool) values
  | bools .withoutMeta values => bytes ++ values.flatMap (putScalar .bool)
  | resize newSize => bytes.take newSize
  | clear => []
  | _ => bytes

/-- Each `resize` is to a size that is not larger. -/
def Shrinks : Bytes → List Op → Prop
  | _, [] => True
  | bytes, op :: ops =>
    (∀ newSize, op = .resize newSize → newSize ≤ bytes.length) ∧ Shrinks (op.apply bytes) ops

structure Holds (b : IoBuffer) (bytes : Bytes) : Prop where
  length_eq : b.buffer.length = b.capacity
  size_le : b.size ≤ b.capacity
  take_eq : b.buffer.take b.size = bytes.map some

variable {b} {bytes data : Bytes} {n : Nat}

theorem Holds.size_eq (h : Holds b bytes) : b.size = bytes.length := by
  have hlen := congrArg length h.take_eq
  rw [length_take, h.length_eq, min_eq_left h.size_le, length_map] at hlen
  exact hlen

theorem Holds.reallocate (h : Holds b bytes) (hn : b.size ≤ n) :
    Holds (b.reallocate r n) bytes ∧ (b.reallocate r n).capacity = n := by
  obtain ⟨hlen, hsize, htake⟩ := h
  unfold IoBuffer.reallocate
  split_ifs with hzero hsame hnull
  · obtain hzero' : b.size = 0 := by omega
    rw [hzero', take_zero] at htake
    exact ⟨⟨hzero.symm, hn, by simpa [hzero'] using htake⟩, rfl⟩
  · exact ⟨⟨hlen, hsize, htake⟩, hsame.1⟩
  · have hzero' : b.size = 0 := by
      rw [hnull, length_nil] at hlen
      omega
    rw [hzero', take_zero] at htake
    exact ⟨⟨length_replicate, hn, by simpa [hzero'] using htake⟩, rfl⟩
  · dsimp only
    set k := match r with
      | .reallocator => n
      | .other => min b.size n
    have hk : b.size ≤ k ∧ k ≤ n := by
      cases r <;> simp only [k] <;> omega
    refine ⟨⟨?_, hn, ?_⟩, rfl⟩
    · simp only [length_append, length_replicate, length_take]
      omega
    · dsimp only
      rw [take_append_of_le_length (by rw [length_take]; omega), take_take, min_eq_left hk.1, htake]

theorem Holds.reserve (h : Holds b bytes) (n : Nat) : Holds (b.reserve r n) bytes ∧
    n ≤ (b.reserve r n).capacity ∧ b.capacity ≤ (b.reserve r n).capacity := by
  unfold IoBuffer.reserve
  split_ifs with hlt
  · exact ⟨h, hlt.le, le_rfl⟩
  · have hsize := h.size_le
    obtain ⟨hholds, hcap⟩ := h.reallocate r (n := n) (by omega)
    exact ⟨hholds, by omega, by omega⟩

theorem Holds.reserveSpare (h : Holds b bytes) (n : Nat) : Holds (b.reserveSpare r n) bytes ∧
    bytes.length + n ≤ (b.reserveSpare r n).capacity ∧
    b.capacity ≤ (b.reserveSpare r n).capacity := by
  have hsize := h.size_eq
  unfold IoBuffer.reserveSpare
  split_ifs
  · obtain ⟨hholds, hroom, hle⟩ := h.reserve r ((b.size + n) * 4)
    exact ⟨hholds, by omega, hle⟩
  · exact ⟨h, by omega, le_rfl⟩

/-- The operation is defined and leaves `bytes`. -/
def Leaves (o : Option IoBuffer) (bytes : Bytes) : Prop := ∃ b, o = some b ∧ Holds b bytes

theorem Leaves.bind {o : Option IoBuffer} {g : IoBuffer → Option IoBuffer} (h : Leaves o bytes)
    (hg : ∀ {b}, Holds b bytes → Leaves (g b) data) : Leaves (o >>= g) data := by
  obtain ⟨b, rfl, hb⟩ := h
  exact hg hb

theorem Holds.append (h : Holds b bytes) (data : Bytes)
    (hroom : bytes.length + data.length ≤ b.capacity) :
    ∃ b', b.append data = some b' ∧ Holds b' (bytes ++ data) ∧ b'.capacity = b.capacity := by
  have hsize := h.size_eq
  refine ⟨_, if_pos (hsize ▸ hroom), ⟨?_, hsize ▸ hroom, ?_⟩, rfl⟩
  · have hlen := h.length_eq
    simp only [length_append, length_take, length_map, length_drop]
    omega
  · have htaken : (b.buffer.take b.size ++ data.map some).length = b.size + data.length := by
      rw [length_append, h.take_eq, length_map, length_map, hsize]
    dsimp only
    rw [← append_assoc, ← htaken, take_left, h.take_eq, map_append]

theorem Holds.terminate (h : Holds b bytes) (hroom : bytes.length < b.capacity) :
    Leaves b.terminate bytes := by
  refine ⟨_, if_pos (h.size_eq ▸ hroom), ?_, h.size_le, ?_⟩
  · rw [length_set, h.length_eq]
  · rw [take_set_of_le le_rfl, h.take_eq]

theorem Holds.putNumber (h : Holds b bytes) (value : Bytes) : ∃ b', b.putNumber r value = some b' ∧
    Holds b' (bytes ++ value) ∧ b.capacity ≤ b'.capacity := by
  obtain ⟨hholds, hroom, hle⟩ := h.reserveSpare r value.length
  obtain ⟨b', hb', hholds', hcap⟩ := hholds.append value hroom
  exact ⟨b', hb', hholds', hle.trans hcap.ge⟩

theorem Holds.leaves_putNumber (h : Holds b bytes) (value : Bytes) :
    Leaves (b.putNumber r value) (bytes ++ value) := by
  obtain ⟨b', hb', hholds, -⟩ := h.putNumber r value
  exact ⟨b', hb', hholds⟩

/-- A length and what was reserved together with it. -/
theorem Holds.putCounted (h : Holds b bytes) (count : Int) (data : Bytes)
    (hroom : bytes.length + (data.length + 4) ≤ b.capacity) :
    Leaves (b.putNumber r (putInt 4 count) >>= (·.append data)) (bytes ++ (putInt 4 count ++ data)) := by
  obtain ⟨b₁, hb₁, hholds₁, hle⟩ := h.putNumber r (putInt 4 count)
  obtain ⟨b₂, hb₂, hholds₂, -⟩ := hholds₁.append data (by
    rw [length_append, length_putInt]
    omega)
  rw [hb₁, ← append_assoc]
  exact ⟨b₂, hb₂, hholds₂⟩

theorem Holds.putString (h : Holds b bytes) (value : Bytes) :
    Leaves (b.putString r .withMeta value) (bytes ++ Io.putString value) := by
  obtain ⟨hholds, hroom, -⟩ := h.reserveSpare r (value.length + 4 + 1)
  have hput := (hholds.putCounted r ((value.length : Int) + 1) value (by omega)).bind
    fun h => h.leaves_putNumber r [0]
  rw [append_assoc, bind_assoc] at hput
  exact hput

/-- Values that are put one by one. -/
theorem Holds.foldlM {α : Type} {put : IoBuffer → α → Option IoBuffer} {enc : α → Bytes}
    (hput : ∀ {b bytes}, Holds b bytes → ∀ a, Leaves (put b a) (bytes ++ enc a)) :
    ∀ (as : List α) {b bytes}, Holds b bytes → Leaves (as.foldlM put b) (bytes ++ as.flatMap enc)
  | [], b, bytes, h => ⟨b, rfl, by rwa [flatMap_nil, append_nil]⟩
  | a :: as, b, bytes, h => by
    rw [foldlM_cons, flatMap_cons, ← append_assoc]
    exact (hput h a).bind fun h => h.foldlM hput as

theorem Holds.step {op : Op} (h : Holds b bytes)
    (hop : ∀ newSize, op = .resize newSize → newSize ≤ bytes.length) :
    Leaves (b.step r op) (op.apply bytes) := by
  cases op with
  | number value => exact h.leaves_putNumber r value
  | string metaInfo value =>
    cases metaInfo with
    | withMeta => exact h.putString r value
    | withoutMeta =>
      obtain ⟨hholds, hroom, -⟩ := h.reserveSpare r (value.length + 4 + 1)
      obtain ⟨b₁, hb₁, hholds₁, hcap⟩ := hholds.append value (by omega)
      change Leaves (IoBuffer.append _ value >>= IoBuffer.terminate) _
      rw [hb₁]
      exact hholds₁.terminate (by rw [length_append]; omega)
  | @numbers n isBool values =>
    obtain ⟨hholds, hroom, -⟩ := h.reserveSpare r (values.length * n + 4 + n)
    cases isBool with
    | true =>
      refine Leaves.bind (hholds.leaves_putNumber r _) fun h => ?_
      rw [Op.apply, ← append_assoc]
      exact h.foldlM (fun h value => h.leaves_putNumber r value.val) values
    | false =>
      refine hholds.putCounted r _ _ ?_
      have hlen : (values.flatMap (·.val)).length = values.length * n := by
        simp [length_flatMap]
      omega
  | strings values =>
    obtain ⟨hholds, -, -⟩ := h.reserveSpare r (values.length * 25 + 4 + 1)
    refine Leaves.bind (hholds.leaves_putNumber r _) fun h => ?_
    rw [Op.apply, ← append_assoc]
    exact h.foldlM (fun h value => h.putString r value) values
  | bools metaInfo values =>
    have hbools {b : IoBuffer} {bytes : Bytes} (h : Holds b bytes) :=
      h.foldlM (fun h value => h.leaves_putNumber r (putScalar .bool value)) values
    cases metaInfo with
    | withMeta =>
      refine Leaves.bind ((h.reserveSpare r _).1.leaves_putNumber r _) fun h => ?_
      rw [Op.apply, putArray, ← append_assoc]
      exact hbools h
    | withoutMeta => exact hbools (h.reserveSpare r _).1
  | resize newSize =>
    have hle := hop newSize rfl
    have hsize := h.size_eq
    have hsize' := h.size_le
    refine ⟨_, rfl, ?_⟩
    rw [IoBuffer.resize, if_neg (by omega)]
    refine ⟨h.length_eq, by dsimp only; omega, ?_⟩
    rw [Op.apply, map_take, ← h.take_eq, take_take, hsize, min_eq_left hle]
  | reserve minCapacity => exact ⟨_, rfl, (h.reserve r _).1⟩
  | reserveSpare additionalCapacity => exact ⟨_, rfl, (h.reserveSpare r _).1⟩
  | shrinkToFit => exact ⟨_, rfl, (h.reallocate r le_rfl).1⟩
  | clear => exact ⟨_, rfl, h.length_eq, Nat.zero_le _, rfl⟩

theorem Holds.run : ∀ {ops : List Op} {b bytes}, Holds b bytes → Shrinks bytes ops →
    Leaves (ops.foldlM (IoBuffer.step r) b) (ops.foldl Op.apply bytes)
  | [], b, _, h, _ => ⟨b, rfl, h⟩
  | _ :: _, _, _, h, hops => (h.step r hops.1).bind fun h => h.run hops.2

/-- Writing never fails: every byte is written below the capacity of the
block, and the bytes in use are those that the operations leave. -/
theorem run_refines (r : Resource) (initialCapacity : Nat) (ops : List Op) (hops : Shrinks [] ops) :
    ∃ b, ops.foldlM (IoBuffer.step r) (create r initialCapacity) = some b ∧ b.size ≤ b.capacity ∧
      b.buffer.length = b.capacity ∧ b.buffer.take b.size = (ops.foldl Op.apply []).map some := by
  have hemp : Holds {} [] := ⟨rfl, le_rfl, rfl⟩
  have hcreate : Holds (create r initialCapacity) [] := by
    unfold create
    split_ifs
    · exact (hemp.reallocate r (Nat.zero_le _)).1
    · exact hemp
  obtain ⟨b, hb, hholds⟩ := hcreate.run r hops
  exact ⟨b, hb, hholds.size_le, hholds.length_eq, hholds.take_eq⟩

theorem run_refines_string : ∃ b, [.string .withMeta [97], .string .withoutMeta [98], .resize 6].foldlM
    (IoBuffer.step .other) (create .other 3) = some b ∧ b.size ≤ b.capacity ∧
    b.buffer.take b.size = [2, 0, 0, 0, 97, 0].map some := by
  obtain ⟨b, hb, hsize, -, htake⟩ := run_refines .other 3
    [.string .withMeta [97], .string .withoutMeta [98], .resize 6]
    ⟨nofun, nofun, fun _ h => by cases h; decide, trivial⟩
  exact ⟨b, hb, hsize, htake⟩

end IoBuffer

end OpenCmw.Io
