import OpenCmw.JsonValues
import OpenCmw.YasRoundTrip

/-!
# JSON texts are read back

`items` is what the writer has written for the members of a struct, each
without its separator; `serialise_eq` shows that the separators it takes
back are those that it wrote. The reading loop is then followed from field
to field: `Ahead` says which fields are still to come.

What a text is read back as is `Members.reread`: the value itself, except
for the values in maps. So a value without maps is read back as it was.
-/

namespace OpenCmw.Io.Json

open Signed (ofInt)
open List Nat

/-! ## The written text -/

/-- The text of a plain value that can be written. -/
def plainText (abi : Abi) (t : ValueTy) (v : t.Val) : Bytes := (put abi t v).toOption.getD []

variable {abi : Abi} {fuel : Nat} {α : Type}

theorem plainText_eq {t : ValueTy} {v : t.Val} (h : Readable t v) :
    plainText abi t v = valueText abi t v ++ trail t := by
  rw [plainText, put_eq abi t h]
  rfl

/-- The fields of a struct, without separators. -/
def items (abi : Abi) : (ms : Members) → ms.Val → List Bytes
  | .nil, _ => []
  | .leaf name _ ty rest, (x, xs) =>
    match x.get? with
    | none => items abi rest xs
    | some a => fieldText (sanitizeFieldName name.bytes) (plainText abi ty a) :: items abi rest xs
  | .nested name _ _ inner rest, (x, xs) =>
    match x.get? with
    | none => items abi rest xs
    | some a => fieldText (sanitizeFieldName name.bytes) (objectText (items abi inner a)) ::
        items abi rest xs
  | .structs name _ _ _ inner rest, (x, xs) =>
    match x.get? with
    | none => items abi rest xs
    | some as => fieldText (sanitizeFieldName name.bytes)
        (writeList (as.toList.map fun a => objectText (items abi inner a))) :: items abi rest xs

/-- The maps in a struct can be read. -/
def ReadableMembers : (ms : Members) → ms.Val → Prop
  | .nil, _ => True
  | .leaf _ _ ty rest, (x, xs) => (∀ a ∈ x.get?, Readable ty a) ∧ ReadableMembers rest xs
  | .nested _ _ _ inner rest, (x, xs) =>
    (∀ a ∈ x.get?, ReadableMembers inner a) ∧ ReadableMembers rest xs
  | .structs _ _ _ _ inner rest, (x, xs) =>
    (∀ as ∈ x.get?, ∀ a ∈ as.toList, ReadableMembers inner a) ∧ ReadableMembers rest xs

/-- Every plain value in a struct can be written. -/
def Written (abi : Abi) : (ms : Members) → ms.Val → Prop
  | .nil, _ => True
  | .leaf _ _ ty rest, (x, xs) =>
    (∀ a ∈ x.get?, put abi ty a = .ok (plainText abi ty a)) ∧ Written abi rest xs
  | .nested _ _ _ inner rest, (x, xs) => (∀ a ∈ x.get?, Written abi inner a) ∧ Written abi rest xs
  | .structs _ _ _ _ inner rest, (x, xs) =>
    (∀ as ∈ x.get?, ∀ a ∈ as.toList, Written abi inner a) ∧ Written abi rest xs

theorem written_of_readable (abi : Abi) : ∀ {ms : Members} {v : ms.Val}, ReadableMembers ms v →
    Written abi ms v
  | .nil, _, _ => trivial
  | .leaf _ _ ty _, (_, _), h =>
    ⟨fun a ha => by rw [plainText_eq (h.1 a ha), put_eq abi ty (h.1 a ha)],
      written_of_readable abi h.2⟩
  | .nested _ _ _ _ _, (_, _), h =>
    ⟨fun a ha => written_of_readable abi (h.1 a ha), written_of_readable abi h.2⟩
  | .structs _ _ _ _ _ _, (_, _), h =>
    ⟨fun as has a ha => written_of_readable abi (h.1 as has a ha), written_of_readable abi h.2⟩

/-- What is left when a struct is read into an object that holds `old`. -/
def rereadMembers (abi : Abi) : (ms : Members) → (v old : ms.Val) → ms.Val
  | .nil, _, _ => ()
  | .leaf _ h ty rest, (x, xs), (y, ys) =>
    (match x.get? with
      | none => y
      | some a => Slot.holding h (reread abi ty a (y.getOrCreate ty.default)),
      rereadMembers abi rest xs ys)
  | .nested _ h _ inner rest, (x, xs), (y, ys) =>
    (match x.get? with
      | none => y
      | some a => Slot.holding h (rereadMembers abi inner a (y.getOrCreate inner.default)),
      rereadMembers abi rest xs ys)
  | .structs _ h _ _ inner rest, (x, xs), (y, ys) =>
    (match x.get? with
      | none => y
      | some as => Slot.holding h (as.map fun a => rereadMembers abi inner a inner.default),
      rereadMembers abi rest xs ys)

/-- What a separator is taken back from. -/
theorem exists_fields_eq {items : List Bytes} (hne : items ≠ []) :
    ∃ before, items.flatMap (· ++ str ",\n") = before ++ str ",\n" := by
  obtain ⟨front, last, rfl⟩ := eq_nil_or_concat items |>.resolve_left hne
  refine ⟨front.flatMap (· ++ str ",\n") ++ last, ?_⟩
  rw [concat_eq_append, flatMap_append, flatMap_singleton, append_assoc]

/-- The end marker completes the object that a start marker began. -/
theorem putEnd_fields (before : Bytes) (items : List Bytes) (field : Field) :
    putEnd (before ++ str "\x7b\n" ++ items.flatMap (· ++ str ",\n")) field =
      .ok (before ++ objectText items ++ (if field.hierarchyDepth = 0 then [] else str ",\n")) := by
  have hclose : (if field.hierarchyDepth = 0 then str "\n\x7d" else str "\n\x7d,\n") =
      str "\n\x7d" ++ (if field.hierarchyDepth = 0 then [] else str ",\n") := by
    split_ifs <;> rfl
  have hlast : ∀ (pre : Bytes) (a b : UInt8), (pre ++ [a, b])[(pre ++ [a, b]).length - 2]? = some a := by
    intro pre a b
    simp
  by_cases hne : items = []
  · have hbyte := hlast before openBrace 10
    have hlen : ¬ (before ++ [openBrace, 10]).length < 2 := by
      rw [length_append]
      exact not_lt.mpr (le_add_left 2 _)
    rw [hne, flatMap_nil, append_nil]
    unfold putEnd
    rw [show str "\x7b\n" = [openBrace, 10] from rfl, if_neg hlen, hbyte,
      if_neg (by decide), hclose, objectText]
    simp only [append_assoc]
    rfl
  · obtain ⟨front, hfront⟩ := exists_fields_eq hne
    have hbyte := hlast (before ++ str "\x7b\n" ++ front) comma 10
    have hlen : ¬ (before ++ str "\x7b\n" ++ front ++ [comma, 10]).length < 2 := by
      rw [length_append]
      exact not_lt.mpr (le_add_left 2 _)
    have hdrop := dropSeparator_fields (before ++ str "\x7b\n") hne
    rw [hfront, ← append_assoc, show str ",\n" = [comma, 10] from rfl] at hdrop
    unfold putEnd
    rw [hfront, ← append_assoc, show str ",\n" = [comma, 10] from rfl, if_neg hlen, hbyte,
      if_pos rfl, hdrop]
    rw [show [comma, 10] = str ",\n" from rfl, hclose, objectText]
    simp only [append_assoc]

/-- A struct whose members write these fields. -/
theorem writeStruct_object (abi : Abi) (fuel : Nat) (field : Field) {f : Bytes → Put}
    {items : List Bytes} (hf : ∀ buf, f buf = .ok (buf ++ items.flatMap (· ++ str ",\n")))
    (buf : Bytes) :
    writeStruct (json abi fuel) field f buf =
      .ok (buf ++ ((if field.fieldName ≠ [] ∧ field.hierarchyDepth ≠ 0 then
        writeKey field.fieldName else []) ++ objectText items) ++
        (if field.hierarchyDepth = 0 then [] else str ",\n")) := by
  have hend := putEnd_fields (buf ++ (if field.fieldName ≠ [] ∧ field.hierarchyDepth ≠ 0 then
    writeKey field.fieldName else [])) items field
  show (f (putStart buf field) >>= fun buf => (putEnd buf field >>= fun buf => .ok buf)) = _
  rw [hf, ok_bind, putStart, hend, ok_bind]
  simp only [append_assoc]

theorem writeStruct_nested (abi : Abi) (fuel : Nat) (field : Field) {f : Bytes → Put}
    {items : List Bytes} (hname : field.fieldName ≠ []) (hdep : field.hierarchyDepth ≠ 0)
    (hf : ∀ buf, f buf = .ok (buf ++ items.flatMap (· ++ str ",\n"))) (buf : Bytes) :
    writeStruct (json abi fuel) field f buf =
      .ok (buf ++ fieldText field.fieldName (objectText items) ++ str ",\n") := by
  rw [writeStruct_object abi fuel field hf, if_pos ⟨hname, hdep⟩, if_neg hdep, fieldText]

theorem writeRoot_object {typeName : Bytes} {subfields : Nat}
    {body : UInt8 → Bytes → Put} {items : List Bytes}
    (hbody : ∀ buf, body 0 buf = .ok (buf ++ items.flatMap (· ++ str ",\n"))) (buf : Bytes) :
    writeRoot (json abi fuel) typeName subfields body buf = .ok (buf ++ objectText items) := by
  have hwrite := writeStruct_object abi fuel
    (newFieldHeader (buf ++ []).length (sanitizeFieldName typeName) 0 otherId
      (toInt16 subfields)) hbody (buf ++ [])
  have hroot : ¬ (sanitizeFieldName typeName ≠ [] ∧ (0 : UInt8) ≠ 0) := fun h => h.2 rfl
  rw [writeRoot]
  refine hwrite.trans ?_
  simp only [newFieldHeader, if_neg hroot, if_true, append_nil, nil_append]

theorem intercalate_cons (sep a : List α) (l : List (List α)) :
    intercalate sep (a :: l) = a ++ l.flatMap (sep ++ ·) := by
  induction l generalizing a with
  | nil => simp [intercalate_singleton]
  | cons b l ih =>
    rw [intercalate_cons_cons, ih, flatMap_cons]
    simp only [append_assoc]

/-- The elements behind the first of an array of structs. -/
theorem foldlM_elements {write : α → Bytes → Put} {text : α → Bytes} :
    ∀ {as : List α} (buf : Bytes), (∀ a ∈ as, ∀ buf, write a buf = .ok (buf ++ text a)) →
      (as.map write).foldlM (fun (state : Bool × Bytes) write => do
        let buf ← write (if state.1 then state.2 else state.2 ++ str ", ")
        .ok (false, buf)) (false, buf) =
        (.ok (false, buf ++ (as.map text).flatMap (str ", " ++ ·)) :
          Except (Halt Exception) (Bool × Bytes))
  | [], buf, _ => by
    rw [map_nil, map_nil, flatMap_nil, append_nil]
    rfl
  | a :: as, buf, h => by
    rw [map_cons, foldlM_cons, if_neg Bool.false_ne_true, h a mem_cons_self, ok_bind,
      ok_bind, foldlM_elements _ fun b hb => h b (mem_cons_of_mem a hb), map_cons, flatMap_cons]
    simp only [append_assoc]

theorem putStructs_elements {write : α → Bytes → Put} {text : α → Bytes} {as : List α}
    (h : ∀ a ∈ as, ∀ buf, write a buf = .ok (buf ++ text a)) (buf : Bytes) (field : Field) :
    putStructs buf field (as.map write) =
      .ok (buf ++ fieldText field.fieldName (writeList (as.map text)) ++ str ",\n") := by
  rw [putStructs]
  cases as with
  | nil =>
    show Except.ok _ = _
    rw [fieldText, writeList]
    simp only [map_nil, append_assoc]
    rfl
  | cons a as =>
    rw [map_cons, foldlM_cons, if_pos rfl, h a mem_cons_self, ok_bind, ok_bind,
      foldlM_elements _ fun b hb => h b (mem_cons_of_mem a hb), ok_bind, fieldText, writeList,
      map_cons, intercalate_cons]
    simp only [append_assoc]

theorem sanitizeFieldName_ne_nil (name : Identifier) : sanitizeFieldName name.bytes ≠ [] := by
  unfold sanitizeFieldName
  split_ifs with h
  · intro hnil
    have hlen := congrArg length hnil
    rw [length_drop, length_nil] at hlen
    omega
  · exact name.ne_nil

/-- The writer writes the fields, each with a separator behind it. -/
theorem serialise_eq (abi : Abi) (fuel : Nat) : ∀ (ms : Members) (v : ms.Val) (depth : UInt8)
    (buf : Bytes), Written abi ms v → depth.toNat + ms.depth < 256 →
    ms.serialise (json abi fuel) v depth buf =
      .ok (buf ++ (items abi ms v).flatMap (· ++ str ",\n"))
  | .nil, _, _, buf, _, _ => by
    rw [items, flatMap_nil, append_nil]
    rfl
  | .leaf name holder ty rest, (x, xs), depth, buf, hwritten, hdep => by
    rw [Members.serialise, items]
    cases hx : x.get? with
    | none => exact serialise_eq abi fuel rest xs depth buf hwritten.2 hdep
    | some a =>
      dsimp only
      have hput := hwritten.1 a hx
      have hleaf : ∀ field : Field, (json abi fuel).putLeaf buf field ty a =
          .ok (buf ++ writeField field.fieldName (plainText abi ty a)) := by
        intro field
        show (fun data => buf ++ writeField field.fieldName data) <$> put abi ty a = _
        rw [hput]
        rfl
      rw [hleaf, ok_bind, serialise_eq abi fuel rest xs depth _ hwritten.2 hdep,
        flatMap_cons, writeField, newFieldHeader, fieldText]
      simp only [append_assoc]
  | .nested name holder typeName inner rest, (x, xs), depth, buf, hwritten, hdep => by
    rw [Members.depth] at hdep
    rw [Members.serialise, items]
    cases hx : x.get? with
    | none => exact serialise_eq abi fuel rest xs depth buf hwritten.2 (by omega)
    | some a =>
      obtain ⟨hne, hnext⟩ := depth_succ depth (by omega)
      have hinner := fun buf => serialise_eq abi fuel inner a (depth + 1) buf (hwritten.1 a hx)
        (by omega)
      have hstruct := writeStruct_nested abi fuel
        (newFieldHeader buf.length (sanitizeFieldName name.bytes) (depth + 1) otherId
          (toInt16 (inner.written a))) (sanitizeFieldName_ne_nil name) hne hinner buf
      refine (congrArg (· >>= _) hstruct).trans ?_
      rw [ok_bind, serialise_eq abi fuel rest xs depth _ hwritten.2 (by omega),
        flatMap_cons, newFieldHeader]
      simp only [append_assoc]
  | .structs name holder n typeName inner rest, (x, xs), depth, buf, hwritten, hdep => by
    rw [Members.depth] at hdep
    rw [Members.serialise, items]
    cases hx : x.get? with
    | none => exact serialise_eq abi fuel rest xs depth buf hwritten.2 (by omega)
    | some as =>
      have hwrite : ∀ a ∈ as.toList, ∀ buf,
          writeRoot (json abi fuel) typeName (inner.written a) (inner.serialise (json abi fuel) a) buf
            = .ok (buf ++ objectText (items abi inner a)) := by
        intro a ha buf
        exact writeRoot_object (fun buf => serialise_eq abi fuel inner a 0 buf
          (hwritten.1 as hx a ha) (show 0 + inner.depth < 256 by omega)) buf
      have hput := putStructs_elements hwrite buf (newFieldHeader buf.length
        (sanitizeFieldName name.bytes) (depth + 1) otherId 0)
      refine (congrArg (· >>= _) hput).trans ?_
      rw [ok_bind, serialise_eq abi fuel rest xs depth _ hwritten.2 (by omega), flatMap_cons,
        newFieldHeader]
      simp only [append_assoc]

/-! ## The reading loop -/

/-- Names of members that are read as they are written. They are short: the
reader of a key takes its length as an `int`. -/
def ShortNames : Members → Prop
  | .nil => True
  | .leaf name _ _ rest => name.bytes.length < 2 ^ 31 ∧ ShortNames rest
  | .nested name _ _ inner rest =>
    name.bytes.length < 2 ^ 31 ∧ ShortNames inner ∧ ShortNames rest
  | .structs name _ _ _ inner rest =>
    name.bytes.length < 2 ^ 31 ∧ ShortNames inner ∧ ShortNames rest

instance decidableShortNames : (ms : Members) → Decidable (ShortNames ms)
  | .nil => inferInstanceAs (Decidable True)
  | .leaf name _ _ rest =>
    have := decidableShortNames rest
    inferInstanceAs (Decidable (name.bytes.length < 2 ^ 31 ∧ ShortNames rest))
  | .nested name _ _ inner rest =>
    have := decidableShortNames inner
    have := decidableShortNames rest
    inferInstanceAs (Decidable (name.bytes.length < 2 ^ 31 ∧ ShortNames inner ∧ ShortNames rest))
  | .structs name _ _ _ inner rest =>
    have := decidableShortNames inner
    have := decidableShortNames rest
    inferInstanceAs (Decidable (name.bytes.length < 2 ^ 31 ∧ ShortNames inner ∧ ShortNames rest))

theorem plain_sanitizeFieldName (name : Identifier) (h : name.bytes.length < 2 ^ 31) :
    Plain (sanitizeFieldName name.bytes) := by
  have hsub : ∀ c ∈ sanitizeFieldName name.bytes, c ∈ name.bytes := by
    intro c hc
    unfold sanitizeFieldName at hc
    split_ifs at hc
    · exact mem_of_mem_drop hc
    · exact hc
  have hchars : ∀ c : UInt8, isIdentifierChar c = true → c ≠ quote ∧ c ≠ backslash := by
    decide +kernel
  refine ⟨sanitizeFieldName_ne_nil name,
    fun c hc => hchars c (name.isIdentifierChar_of_mem (hsub c hc)), ?_⟩
  unfold sanitizeFieldName
  split_ifs
  · rw [length_drop]
    omega
  · exact h

/-- The loop reads the members `ms` back wherever they stand, as part of
whatever struct. -/
def ReadsBack (abi : Abi) (fuel : Nat) (check : ProtocolCheck) (ms : Members) : Prop :=
  ∀ (depth : UInt8) {size : Bytes → Nat} {v : ms.Val} (old : ms.Val), ReadableMembers ms v →
    ShortNames ms → ms.DistinctNames → ms.Sized rootName size →
    ∀ {α : Type} {R : StructReader α} {pre : List Bytes} {C : ms.Val → α} {parentName : Bytes}
      {m : Memory} {p stop : Nat}, Embeds (json abi fuel) fuel check R pre ms C →
      R.names.Nodup → R.names.length = size parentName → Ahead m p (items abi ms v) stop →
      m.size < fuel → depth.toNat + ms.depth < 256 → ∃ q, Ahead m q [] stop ∧
        Consumes (json abi fuel) check R parentName size m (items abi ms v).length
          (·.hierarchyDepth = depth) (C old) p (·.hierarchyDepth = depth)
          (C (rereadMembers abi ms v old)) q

theorem items_length_le (items : List Bytes) (h : ∀ item ∈ items, item ≠ []) :
    items.length ≤ (objectText items).length := by
  have hcnt := length_le_intercalate (str ",\n") h
  rw [objectText, length_append, length_append]
  omega

theorem items_ne_nil (abi : Abi) : ∀ (ms : Members) (v : ms.Val), ∀ item ∈ items abi ms v, item ≠ []
  | .nil, _, _, hitem => absurd hitem not_mem_nil
  | .leaf _ _ _ rest, (x, xs), item, hitem | .nested _ _ _ _ rest, (x, xs), item, hitem
  | .structs _ _ _ _ _ rest, (x, xs), item, hitem => by
    rw [items] at hitem
    cases hx : x.get? with
    | none =>
      rw [hx] at hitem
      exact items_ne_nil abi rest xs item hitem
    | some a =>
      rw [hx] at hitem
      rcases mem_cons.mp hitem with rfl | hitem
      · exact cons_ne_nil _ _
      · exact items_ne_nil abi rest xs item hitem

/-- A struct whose members are read back is read back, once its header has
led behind its opening brace. -/
theorem readStruct_object {check : ProtocolCheck} {ms : Members}
    (hms : ReadsBack abi fuel check ms) (typeName : Bytes) (parent : Field) {size : Bytes → Nat}
    {v : ms.Val} (old : ms.Val) {info : DeserialiserInfo} {m : Memory} {p d : Nat}
    (hrd : ReadableMembers ms v) (hshort : ShortNames ms) (hdist : ms.DistinctNames)
    (hsized : ms.Sized rootName size) (hlen : ms.names.length = size parent.fieldName)
    (hat : m.At d (objectText (items abi ms v)))
    (hhdr : ∀ info field, field.hierarchyDepth = parent.hierarchyDepth → field.fieldName = [] →
      ∃ field₁ q, getHeader check info field m p = .ok ((info, field₁), q) ∧
        field₁.hierarchyDepth = parent.hierarchyDepth ∧ field₁.dataStartPosition = d + 1 ∧
        (parent.hierarchyDepth = 0 → field₁.fieldName = []))
    (hfuel : m.size < fuel) (hdep : parent.hierarchyDepth.toNat + ms.depth < 256)
    (hclean : Clean size info) :
    ∃ info', readStruct (json abi fuel) check (ms.reader (json abi fuel) fuel check typeName) fuel
        parent old info m p =
          .ok ((rereadMembers abi ms v old, info'), d + (objectText (items abi ms v)).length) ∧
      Clean size info' ∧ KeepsBitFields info info' := by
  have hsize := hat.le_size
  have hcnt := items_length_le (items abi ms v) (items_ne_nil abi ms v)
  obtain ⟨hcleanInit, htr, hkeepsInit⟩ := initSetFields_spec check _ _ hclean fun _ => hlen
  obtain ⟨field₁, _, hfirst, hdep₁, hstart, hname⟩ := hhdr
    (initSetFields check parent.fieldName ms.names.length info)
    (newFieldHeader m.size [] parent.hierarchyDepth otherId (-1)) rfl rfl
  obtain ⟨q, hend, hloop⟩ := hms parent.hierarchyDepth old hrd hshort hdist hsized
    (embeds_reader (json abi fuel) fuel check typeName ms) hdist.nodup hlen
    (ahead_object hat) hfuel hdep
  rw [readStruct_eq (R := ms.reader (json abi fuel) fuel check typeName) hfirst
    (fun hzero => Or.inr (hname (hdep₁.symm.trans hzero))) rfl, hstart]
  obtain ⟨info', hrun, hclean', hkeeps⟩ := hloop.readFields_eq hdep₁ hcleanInit htr
    (show (items abi ms v).length < fuel by omega) fun field' info' _ _ => by
      obtain ⟨_, hlast, hid, hpos⟩ := hend.end check info' field'
      rw [readFields_end
        (lt_of_lt_of_le hend.stop_le_size.1 hend.stop_le_size.2) hlast hid, hpos]
  exact ⟨info', hrun, hclean', hkeepsInit.trans hkeeps⟩

section Member

variable {abi : Abi} {fuel : Nat} {check : ProtocolCheck} {α : Type} {R : StructReader α}
  {pre : List Bytes} {parentName : Bytes} {size : Bytes → Nat} {m : Memory} {p stop : Nat}
  (depth : UInt8) {name : Identifier} {holder : Holder} {rest : Members} {later : List Bytes}

/-- An element of an array of structs is read as a root of its own. -/
theorem readRoot_readsIn {inner : Members} (hinner : ReadsBack abi fuel .lenient inner)
    (typeName : Bytes) {size' : Bytes → Nat} {a : inner.Val} (hrd : ReadableMembers inner a)
    (hshort : ShortNames inner) (hdist : inner.DistinctNames)
    (hlen : inner.names.length = size' rootName) (hsized : inner.Sized rootName size')
    (hfuel : m.size < fuel) (hdep : inner.depth < 256) :
    ReadsIn m ((·.1) <$> readRoot (json abi fuel) .lenient
      (inner.reader (json abi fuel) fuel .lenient typeName) fuel inner.default)
      (objectText (items abi inner a)) (rereadMembers abi inner a inner.default) := by
  intro p c _ hat
  have hobject := hat.left
  obtain ⟨info', hread, -⟩ := readStruct_object hinner typeName
    (newFieldHeader m.size rootName 0 otherId (-1)) inner.default hrd hshort hdist hsized
    hlen hobject
    (fun info field hfield hname => by
      obtain ⟨headerStart, hhdr⟩ := getHeader_start hobject .lenient info field
      exact ⟨_, _, hhdr, hfield, rfl, fun _ => hname⟩)
    hfuel (show 0 + inner.depth < 256 by omega) (clean_empty size')
  refine ByteReader.map_of_ok (a := (rereadMembers abi inner a inner.default, info')) ?_ _
  rw [readRoot_eq rfl rfl]
  exact hread

variable (hnd : R.names.Nodup) (hnames : R.names.length = size parentName)
  (hshort : name.bytes.length < 2 ^ 31) (hfuel : m.size < fuel)
include hnd hnames hshort hfuel

/-- The loop of `R` reads one field, from `a` to `b`, and `later` are still to
come. -/
def Round (abi : Abi) (fuel : Nat) (check : ProtocolCheck) (R : StructReader α) (parentName : Bytes)
    (size : Bytes → Nat) (m : Memory) (depth : UInt8) (later : List Bytes) (stop p : Nat) (a b : α) :
    Prop :=
  ∃ q, Ahead m q later stop ∧ Consumes (json abi fuel) check R parentName size m 1
    (·.hierarchyDepth = depth) a p (·.hierarchyDepth = depth) b q

/-- A plain member is one round. -/
theorem consumes_leaf {ty : ValueTy} {C : (Members.leaf name holder ty rest).Val → α}
    (hemb : Embeds (json abi fuel) fuel check R pre (.leaf name holder ty rest) C)
    {a : ty.Val} (y : Slot holder ty.Val) (ys : rest.Val) (hrd : Readable ty a)
    (hahead : Ahead m p
      (fieldText (sanitizeFieldName name.bytes) (plainText abi ty a) :: later) stop) :
    Round abi fuel check R parentName size m depth later stop p (C (y, ys))
      (C (Slot.holding holder (reread abi ty a (y.getOrCreate ty.default)), ys)) := by
  rw [plainText_eq hrd] at hahead
  obtain ⟨c, _, hhead, hwhite, hbrace⟩ := valueText_head abi ty hrd
  obtain ⟨headerStart, d, -, hat, hstop, hhdr⟩ :=
    hahead.header (plain_sanitizeFieldName name hshort)
      (by rw [hhead]; rfl) hwhite
  obtain ⟨_, hdigit, hval⟩ := at_delimiter (blank_trail ty) hat
  have hnext := ahead_tail (blank_trail ty) (by rw [append_assoc] at hat; exact hat.right)
  have hend : d + (valueText abi ty a).length + (trail ty).length + (tailText later).length = stop := by
    rw [hstop, length_append]
    omega
  rw [hend] at hnext
  refine ⟨_, hnext, Consumes.member pre.length
    (lt_of_lt_of_le hahead.stop_le_size.1 hahead.stop_le_size.2)
    fun field info hI hclean htr => ?_⟩
  set f := namedField { field with headerStart := headerStart } (sanitizeFieldName name.bytes) c d
  have hleaf : (json abi fuel).getLeaf ty f (y.getOrCreate ty.default) m f.dataStartPosition =
      .ok ((reread abi ty a (y.getOrCreate ty.default), f), d + (valueText abi ty a).length) := by
    have hpos : f.dataStartPosition = if typeId ty = startMarkerId then d + 1 else d :=
      if_congr hbrace rfl rfl
    rw [hpos]
    exact ByteReader.map_of_ok
      (get_value abi hfuel ty (y.getOrCreate ty.default) _ hrd hdigit hval) _
  have htype : typeId ty = f.intDataType ∨ typeId ty = otherId := by
    rcases typeId_readable ty hrd with hstart | hother
    · exact Or.inl (hstart.trans (if_pos (hbrace.mpr hstart)).symm)
    · exact Or.inr hother
  obtain ⟨info', hmember, hclean', hkeeps⟩ := hemb.readPlain rfl (·, ys) y field.subfields
    (fun _ => rfl) (fun _ => hnames) hclean htr htype hleaf
  exact ⟨_, _, _, info', hhdr check info field, namedField_ne_end _ _ _ _,
    hemb.findMemberIndex rfl hnd, hmember, Or.inl rfl, hI, hclean', hkeeps⟩

variable {inner : Members}

/-- A nested struct is one round: its loop starts from its header again. -/
theorem consumes_nested {typeName : Bytes}
    {C : (Members.nested name holder typeName inner rest).Val → α}
    (hemb : Embeds (json abi fuel) fuel check R pre (.nested name holder typeName inner rest) C)
    (hinner : ReadsBack abi fuel check inner) {a : inner.Val} (y : Slot holder inner.Val)
    (ys : rest.Val) (hrd : ReadableMembers inner a) (hshortInner : ShortNames inner) (hdist : inner.DistinctNames)
    (hlen : inner.names.length = size (sanitizeFieldName name.bytes))
    (hsized : inner.Sized rootName size) (hdep : depth.toNat + (inner.depth + 1) < 256)
    (hahead : Ahead m p
      (fieldText (sanitizeFieldName name.bytes) (objectText (items abi inner a)) :: later) stop) :
    Round abi fuel check R parentName size m depth later stop p (C (y, ys))
      (C (Slot.holding holder (rereadMembers abi inner a (y.getOrCreate inner.default)), ys)) := by
  have hplain := plain_sanitizeFieldName name hshort
  obtain ⟨headerStart, d, hagain, hat, hstop, hhdr⟩ :=
    hahead.header hplain (c := openBrace) rfl (by decide)
  obtain ⟨headerStart', d', -, -, hstop', hhdr'⟩ :=
    hagain.header hplain rfl (by decide)
  obtain rfl : d' = d := by omega
  have hnext := ahead_next hat.right
  rw [← hstop] at hnext
  refine ⟨_, hnext, Consumes.member pre.length
    (lt_of_lt_of_le hahead.stop_le_size.1 hahead.stop_le_size.2)
    fun field info hI hclean htr => ?_⟩
  set f := namedField { field with headerStart := headerStart } (sanitizeFieldName name.bytes) openBrace d'
  obtain ⟨hne, hlevel⟩ := f.enter_depth startMarkerId (sanitizeFieldName name.bytes) hI (by omega)
  obtain ⟨_, hread, hclean', hkeeps⟩ := readStruct_object hinner typeName
    (f.enter startMarkerId (sanitizeFieldName name.bytes))
    (y.getOrCreate inner.default) hrd hshortInner hdist hsized hlen hat.left
    (fun info field₀ hfield₀ _ => ⟨_, _, hhdr' check info field₀, hfield₀, rfl,
      fun hzero => absurd hzero hne⟩)
    hfuel (by omega) hclean
  obtain ⟨info'', hmember, hclean'', hkeeps'⟩ := hemb.readNested y ys field.subfields
    (fun _ => hnames) htr hclean' hkeeps hread
  exact ⟨_, _, _, info'', hhdr check info field, namedField_ne_end _ _ _ _,
    hemb.findMemberIndex rfl hnd, hmember, Or.inl rfl, hI, hclean'', hkeeps'⟩

/-- An array of structs is one round. -/
theorem consumes_structs {n : Option Nat} {typeName : Bytes}
    {C : (Members.structs name holder n typeName inner rest).Val → α}
    (hemb : Embeds (json abi fuel) fuel check R pre (.structs name holder n typeName inner rest) C)
    (hinner : ReadsBack abi fuel .lenient inner) {as : Seq n inner.Val}
    (y : Slot holder (Seq n inner.Val)) (ys : rest.Val)
    (hrd : ∀ a ∈ as.toList, ReadableMembers inner a) (hshortInner : ShortNames inner) (hdist : inner.DistinctNames)
    (hsized : ∃ size' : Bytes → Nat, size' rootName = inner.names.length ∧ inner.Sized rootName size')
    (hdep : inner.depth < 256) (hahead : Ahead m p (fieldText (sanitizeFieldName name.bytes)
      (writeList (as.toList.map fun a => objectText (items abi inner a))) :: later) stop) :
    Round abi fuel check R parentName size m depth later stop p (C (y, ys))
      (C (Slot.holding holder (as.map fun a => rereadMembers abi inner a inner.default), ys)) := by
  obtain ⟨size', hlen, hsized⟩ := hsized
  obtain ⟨headerStart, d, -, hat, hstop, hhdr⟩ :=
    hahead.header (plain_sanitizeFieldName name hshort) rfl (by decide)
  have hnext := ahead_next hat.right
  rw [← hstop] at hnext
  refine ⟨_, hnext, Consumes.member pre.length
    (lt_of_lt_of_le hahead.stop_le_size.1 hahead.stop_le_size.2)
    fun field info hI hclean htr => ?_⟩
  have hread := readArray_map (fun a => rereadMembers abi inner a inner.default) hfuel
    (fun a ha => ⟨readRoot_readsIn hinner typeName (hrd a ha) hshortInner hdist
      hlen.symm hsized hfuel hdep, openBrace, _, rfl, by decide, by decide⟩) hat.left
  obtain ⟨info', hmember, hclean', hkeeps⟩ := hemb.readPlain rfl (·, ys) y field.subfields
    (fun _ => rfl) (fun _ => hnames) hclean htr (Or.inr rfl)
    (ByteReader.map_of_ok hread fun as => (as, namedField { field with headerStart := headerStart }
      (sanitizeFieldName name.bytes) openBracket d))
  exact ⟨_, _, _, info', hhdr check info field, namedField_ne_end _ _ _ _,
    hemb.findMemberIndex rfl hnd, hmember, Or.inl rfl, hI, hclean', hkeeps⟩

end Member

theorem readsBack (abi : Abi) (fuel : Nat) : (ms : Members) → (check : ProtocolCheck) →
    ReadsBack abi fuel check ms
  | .nil, check => by
    intro depth size v old _ _ _ _ α R pre C parentName m p stop _ _ _ hahead _ _
    exact ⟨p, hahead, Consumes.refl⟩
  | .leaf name holder ty rest, check => by
    rintro depth size ⟨x, xs⟩ ⟨y, ys⟩ hrd hshort hdist hsized α R pre C parentName m p stop
      hemb hnd hnames hahead hfuel hdep
    rw [items] at hahead ⊢
    rw [rereadMembers]
    cases hx : x.get? with
    | none =>
      rw [hx] at hahead
      exact readsBack abi fuel rest check depth ys hrd.2 hshort.2 hdist.2 hsized
        (hemb.tail_leaf y) hnd hnames hahead hfuel hdep
    | some a =>
      rw [hx] at hahead
      obtain ⟨q, hahead, hrnd⟩ := consumes_leaf depth hnd hnames hshort.1 hfuel hemb
        y ys (hrd.1 a hx) hahead
      obtain ⟨q', hend, hrest⟩ := readsBack abi fuel rest check depth ys hrd.2 hshort.2
        hdist.2 hsized (hemb.tail_leaf _) hnd hnames hahead hfuel hdep
      refine ⟨q', hend, ?_⟩
      rw [length_cons, add_comm]
      exact hrnd.trans hrest
  | .nested name holder typeName inner rest, check => by
    rintro depth size ⟨x, xs⟩ ⟨y, ys⟩ hrd hshort hdist hsized α R pre C parentName m p stop
      hemb hnd hnames hahead hfuel hdep
    rw [Members.depth] at hdep
    rw [items] at hahead ⊢
    rw [rereadMembers]
    cases hx : x.get? with
    | none =>
      rw [hx] at hahead
      exact readsBack abi fuel rest check depth ys hrd.2 hshort.2.2 hdist.2.2 hsized.2.2
        (hemb.tail_nested y) hnd hnames hahead hfuel (by omega)
    | some a =>
      rw [hx] at hahead
      obtain ⟨q, hahead, hrnd⟩ := consumes_nested depth hnd hnames hshort.1 hfuel
        hemb (readsBack abi fuel inner check) y ys (hrd.1 a hx) hshort.2.1
        hdist.2.1 hsized.1 hsized.2.1 (by omega) hahead
      obtain ⟨q', hend, hrest⟩ := readsBack abi fuel rest check depth ys hrd.2 hshort.2.2
        hdist.2.2 hsized.2.2 (hemb.tail_nested _) hnd hnames hahead hfuel (by omega)
      refine ⟨q', hend, ?_⟩
      rw [length_cons, add_comm]
      exact hrnd.trans hrest
  | .structs name holder n typeName inner rest, check => by
    rintro depth size ⟨x, xs⟩ ⟨y, ys⟩ hrd hshort hdist hsized α R pre C parentName m p stop
      hemb hnd hnames hahead hfuel hdep
    rw [Members.depth] at hdep
    rw [items] at hahead ⊢
    rw [rereadMembers]
    cases hx : x.get? with
    | none =>
      rw [hx] at hahead
      exact readsBack abi fuel rest check depth ys hrd.2 hshort.2.2 hdist.2.2 hsized.2
        (hemb.tail_structs y) hnd hnames hahead hfuel (by omega)
    | some as =>
      rw [hx] at hahead
      obtain ⟨q, hahead, hrnd⟩ := consumes_structs depth hnd hnames hshort.1 hfuel
        hemb (readsBack abi fuel inner .lenient) y ys (hrd.1 as hx) hshort.2.1
        hdist.2.1 hsized.1 (by omega) hahead
      obtain ⟨q', hend, hrest⟩ := readsBack abi fuel rest check depth ys hrd.2 hshort.2.2
        hdist.2.2 hsized.2 (hemb.tail_structs _) hnd hnames hahead hfuel (by omega)
      refine ⟨q', hend, ?_⟩
      rw [length_cons, add_comm]
      exact hrnd.trans hrest

/-! ## The round trip -/

theorem serialise_root {T : StructTy} {v : T.members.Val}
    (hwritten : Written abi T.members v) (hdep : T.members.depth ≤ 255) (fuel : Nat) :
    serialise (json abi fuel) T v = .ok (objectText (items abi T.members v)) := by
  rw [serialise, writeRoot_object fun buf => serialise_eq abi fuel T.members v 0 buf hwritten
    (show 0 + T.members.depth < 256 by omega)]
  rfl

/-- What a text is read back as. -/
theorem deserialise_serialise {T : StructTy} {v : T.members.Val} (init : T.members.Val)
    (hrd : ReadableMembers T.members v) (hshort : ShortNames T.members)
    (hdist : T.members.DistinctNames)
    (hsized : ∃ size, T.members.names.length = size rootName ∧ T.members.Sized rootName size)
    (hdep : T.members.depth ≤ 255) (check : ProtocolCheck) (beyond : Nat → Option UInt8)
    (hfuel : (objectText (items abi T.members v)).length < fuel) : ∃ info, info.exceptions = [] ∧
      deserialise (json abi fuel) check fuel T init ⟨objectText (items abi T.members v), beyond⟩ 0 =
        .ok ((rereadMembers abi T.members v init, info),
          (objectText (items abi T.members v)).length) := by
  obtain ⟨size, hsize, hsized⟩ := hsized
  have hat := Memory.at_data ⟨objectText (items abi T.members v), beyond⟩
  obtain ⟨info, hread, hclean, -⟩ := readStruct_object (readsBack abi fuel T.members check) T.typeName
    (newFieldHeader (objectText (items abi T.members v)).length rootName 0 otherId (-1)) init
    hrd hshort hdist hsized hsize hat
    (fun info field hfield hname => by
      obtain ⟨headerStart, hhdr⟩ := getHeader_start hat check info field
      exact ⟨_, _, hhdr, hfield, rfl, fun _ => hname⟩)
    hfuel (show 0 + T.members.depth < 256 by omega) (clean_empty size)
  refine ⟨info, hclean.exceptions, ?_⟩
  rw [deserialise, readRoot_eq rfl rfl]
  rw [zero_add] at hread
  exact hread

/-- No member is a map. -/
def NoMaps : Members → Prop
  | .nil => True
  | .leaf _ _ ty rest => (∀ kind key value, ty ≠ .map kind key value) ∧ NoMaps rest
  | .nested _ _ _ inner rest => NoMaps inner ∧ NoMaps rest
  | .structs _ _ _ _ inner rest => NoMaps inner ∧ NoMaps rest

theorem readable_of_ne_map : {t : ValueTy} → (∀ kind key value, t ≠ .map kind key value) →
    (v : t.Val) → Readable t v
  | .scalar _, _, _ => trivial
  | .array _ _, _, _ => trivial
  | .set _, _, _ => trivial
  | .multiArray _ _, _, _ => trivial
  | .map kind key value, h, _ => absurd rfl (h kind key value)

theorem reread_of_ne_map (abi : Abi) : {t : ValueTy} → (∀ kind key value, t ≠ .map kind key value) →
    (v old : t.Val) → reread abi t v old = v
  | .scalar _, _, _, _ => rfl
  | .array _ _, _, _, _ => rfl
  | .set _, _, _, _ => rfl
  | .multiArray _ _, _, _, _ => rfl
  | .map kind key value, h, _, _ => absurd rfl (h kind key value)

theorem readable_of_noMaps : ∀ {ms : Members}, NoMaps ms → (v : ms.Val) → ReadableMembers ms v
  | .nil, _, _ => trivial
  | .leaf _ _ _ _, h, (_, xs) => ⟨fun a _ => readable_of_ne_map h.1 a, readable_of_noMaps h.2 xs⟩
  | .nested _ _ _ _ _, h, (_, xs) =>
    ⟨fun a _ => readable_of_noMaps h.1 a, readable_of_noMaps h.2 xs⟩
  | .structs _ _ _ _ _ _, h, (_, xs) =>
    ⟨fun _ _ a _ => readable_of_noMaps h.1 a, readable_of_noMaps h.2 xs⟩

theorem Seq.map_eq_self {f : α → α} (h : ∀ a, f a = a) {n : Option Nat} (v : Seq n α) :
    v.map f = v := by
  rw [show f = id from funext h, Seq.map_id]

/-- Without maps nothing is lost. -/
theorem rereadMembers_of_noMaps (abi : Abi) : ∀ {ms : Members}, NoMaps ms → (v old : ms.Val) →
    ms.Covers v old → rereadMembers abi ms v old = v
  | .nil, _, _, _, _ => rfl
  | .leaf _ _ ty rest, h, (x, xs), (y, ys), hcov => by
    rw [rereadMembers, rereadMembers_of_noMaps abi h.2 xs ys hcov.2]
    cases hx : x.get? with
    | none => rw [hcov.1.eq_of_none hx]
    | some a =>
      dsimp only
      rw [reread_of_ne_map abi h.1, Slot.eq_holding_of_get? hx]
  | .nested _ _ _ inner rest, h, (x, xs), (y, ys), hcov => by
    rw [rereadMembers, rereadMembers_of_noMaps abi h.2 xs ys hcov.2]
    cases hx : x.get? with
    | none => rw [hcov.1.eq_of_none hx]
    | some a =>
      dsimp only
      rw [rereadMembers_of_noMaps abi h.1 a _
        (hcov.1.getOrCreate hx (inner.covers_default a)), Slot.eq_holding_of_get? hx]
  | .structs _ _ _ _ inner rest, h, (x, xs), (y, ys), hcov => by
    rw [rereadMembers, rereadMembers_of_noMaps abi h.2 xs ys hcov.2]
    cases hx : x.get? with
    | none => rw [hcov.1.eq_of_none hx]
    | some as =>
      dsimp only
      rw [Seq.map_eq_self fun a => rereadMembers_of_noMaps abi h.1 a inner.default
        (inner.covers_default a), Slot.eq_holding_of_get? hx]

/-- A struct without maps is read back from its text into any object that it
overwrites, a default-constructed one for instance. No two members may
share a wire name, and structs that are read under one field name, `root`
being that of the outermost and of the elements of arrays, need equally
many members. -/
theorem json_roundTrips (abi : Abi) (T : StructTy) (v init : T.members.Val)
    (hmaps : NoMaps T.members) (hshort : ShortNames T.members) (hdistinct : T.members.DistinctNames)
    (hsized : ∃ size, T.members.names.length = size rootName ∧ T.members.Sized rootName size)
    (hdepth : T.members.depth ≤ 255) (hcovers : T.members.Covers v init) :
    RoundTrips (json abi) .always T v init := by
  have hrd := readable_of_noMaps hmaps v
  refine ⟨objectText (items abi T.members v), fun fuel =>
    ⟨serialise_root (written_of_readable abi hrd) hdepth fuel, ?_⟩⟩
  intro beyond hfuel
  obtain ⟨info, hinfo, hread⟩ := deserialise_serialise init hrd hshort hdistinct hsized hdepth
    .always beyond hfuel
  rw [rereadMembers_of_noMaps abi hmaps v init hcovers] at hread
  exact ⟨info, hinfo, hread⟩

/-- A string, a vector of structs, a `MultiArray` and a nested struct behind
a pointer. -/
def waveform : StructTy where
  typeName := str "Waveform"
  members :=
    .leaf ⟨str "label", by decide⟩ .direct (.scalar .string) <|
    .structs ⟨str "channels", by decide⟩ .direct none (str "Channel")
      (.leaf ⟨str "gain", isIdentifier_gain⟩ .direct (.scalar (.int .w16)) .nil) <|
    .leaf ⟨str "samples", by decide⟩ .direct (.multiArray (.int .w32) 1) <|
    .nested ⟨str "trigger", by decide⟩ .pointer (str "Trigger")
      (.leaf ⟨str "armed", by decide⟩ .direct (.scalar .bool) .nil) .nil

def someWaveform : waveform.members.Val :=
  ([34, 10, 0, 255], [(ofInt .w16 (-3), ()), (ofInt .w16 12, ())],
    RowMajor.mk [ofInt .w32 5, ofInt .w32 (-6)] ⟨[1, 2], rfl⟩, some (true, ()), ())

theorem json_roundTrips_waveform :
    RoundTrips (json sortedAbi) .always waveform someWaveform waveform.members.default := by
  refine json_roundTrips sortedAbi waveform someWaveform waveform.members.default ?_
    (by decide +kernel) (by decide +kernel) ?_ (by decide)
    (waveform.members.covers_default someWaveform)
  · refine ⟨?_, ⟨?_, trivial⟩, ?_, ⟨?_, trivial⟩, trivial⟩ <;> rintro _ _ _ ⟨⟩
  · refine ⟨fun name => if name = rootName then 4 else 1, by decide,
      ⟨fun _ => 1, rfl, trivial⟩, by decide, trivial, trivial⟩

theorem not_json_roundTrips :
    ¬ RoundTrips (json sortedAbi) .always Yas.twins (ofInt .w32 1, ofInt .w32 2, ())
        Yas.twins.members.default ∧
    ¬ RoundTrips (json sortedAbi) .always Yas.rooted ((true, true, ()), ())
        Yas.rooted.members.default ∧
    ¬ RoundTrips (json sortedAbi) .always Yas.pointing (none, ()) (some true, ()) := by
  refine ⟨fun h => ?_, fun h => ?_, fun h => ?_⟩
  · exact absurd h.readBack_eq (by decide +kernel)
  · exact absurd h.readBack_eq (by decide +kernel)
  · exact absurd h.readBack_eq (by decide +kernel)

end OpenCmw.Io.Json
