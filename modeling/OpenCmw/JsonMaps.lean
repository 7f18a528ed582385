import OpenCmw.JsonRoundTrip

/-!
# Maps in JSON

The reader of a map makes an entry for each key, copies it, and reads the
value into the copy. So the keys come back and the values do not: whatever
is read, every value in the map is the default one (`Emplaced`). The
writer takes the last two bytes back also when there is no entry, and an
empty map loses its opening brace.

A struct with a map among its members is therefore read back exactly when
the map has entries, all of their values are default ones, and the reader
can take their keys: a key is not empty and shorter than 2^31 bytes.
-/

namespace OpenCmw.Io.Json

open Slot (holding)
open List Nat ByteReader

variable {m : Memory} {p q : Nat}

/-! ## What the reader of a map can give -/

/-- Entries as the reader of a map makes them. -/
def Emplaced {V : Type} (d : V) (value : SortedMap Bytes V) : Prop :=
  ∀ e ∈ value.entries, e.1 ≠ [] ∧ (e.1.length < 2 ^ 31 ∨ quote ∈ e.1) ∧ e.2 = d

theorem Emplaced.tryEmplace {V : Type} {d : V} {value : SortedMap Bytes V} (h : Emplaced d value)
    {name : Bytes} (hne : name ≠ []) (hname : name.length < 2 ^ 31 ∨ quote ∈ name) :
    Emplaced d (value.tryEmplace name d) := by
  intro e he
  rw [SortedMap.tryEmplace] at he
  split_ifs at he with hfind
  · exact h e he
  · rcases (SortedMap.mem_insert ..).mp he with rfl | ⟨he, -⟩
    · exact ⟨hne, hname, rfl⟩
    · exact h e he

theorem atIndex_eq_ok {i : Nat} {c : UInt8} :
    atIndex i m p = .ok (c, q) ↔ m.data[i]? = some c ∧ p = q := by
  rw [atIndex]
  cases m.data[i]? with
  | none => simp
  | some b => simp

/-- Where a span ends, the next element is not accepted. -/
theorem not_accept_of_getElem? {α : Type} {accept : α → Bool} : ∀ {l : List α} {c : α},
    l[(l.takeWhile accept).length]? = some c → accept c = false
  | [], c, h => by cases h
  | a :: l, c, h => by
    by_cases ha : accept a = true
    · rw [takeWhile_cons_of_pos ha, length_cons, getElem?_cons_succ] at h
      exact not_accept_of_getElem? h
    · rw [takeWhile_cons_of_neg ha] at h
      cases h
      exact Bool.eq_false_of_not_eq_true ha

/-- A key that is read is short, or the rest of the buffer and a quote in
it. -/
theorem readKey_length {name : Bytes} (h : readKey m p = .ok (name, q)) :
    name.length < 2 ^ 31 ∨ quote ∈ name := by
  rw [readKey] at h
  obtain ⟨c, p₁, -, h⟩ := bind_ok_iff.mp h
  split_ifs at h with hquote
  · cases h
  rw [position_bind] at h
  obtain ⟨key, _, hkey, h⟩ := bind_ok_iff.mp h
  obtain ⟨c', _, hstop, h⟩ := bind_ok_iff.mp h
  split_ifs at h with hback
  · obtain ⟨_, _, -, h⟩ := bind_ok_iff.mp h
    cases h
  rw [setPosition_bind, asString] at h
  split_ifs at h with hsize hrange hneg
  · -- the whole rest, where the quote that ends the key stands
    obtain ⟨rfl, -⟩ := Prod.mk.inj (Except.ok.inj h)
    obtain ⟨hc', -⟩ := atIndex_eq_ok.mp hstop
    obtain ⟨rfl, -⟩ := Prod.mk.inj (Except.ok.inj hkey)
    have hmem : c' ∈ m.data.drop p₁ := by
      rw [mem_iff_getElem?]
      exact ⟨_, (getElem?_drop ..).trans hc'⟩
    have hnext := (getElem?_drop ..).trans hc'
    have hquote : c' = quote := by
      have hnot := not_accept_of_getElem? hnext
      by_contra hne
      exact of_decide_eq_false hnot ⟨hne, hback⟩
    rw [hquote] at hmem
    exact Or.inr hmem
  · obtain ⟨rfl, -⟩ := Prod.mk.inj (Except.ok.inj h)
    left
    rw [length_take]
    have hlt := Int.bmod_lt (x := (key.length : Int)) (m := 2 ^ 32) (by decide)
    omega

theorem reportIf_always {bad : Prop} [Decidable bad] {info info' : DeserialiserInfo}
    {e : ProtocolException} (h : reportIf bad .always info e m p = .ok (info', q)) :
    ¬ bad ∧ info = info' ∧ p = q := by
  rw [reportIf] at h
  split_ifs at h with hbad
  · cases h
  · exact ⟨hbad, pure_eq_ok.mp h⟩

/-- What a header can be when nothing may be malformed: a brace, or a key
that the reader of keys can give. -/
theorem getHeader_always {info info' : DeserialiserInfo} {field field' : Field}
    (h : getHeader .always info field m p = .ok ((info', field'), q)) :
    m.data[q]? = some openBrace ∨ field'.intDataType = endMarkerId ∨
      (field'.fieldName ≠ [] ∧ (field'.fieldName.length < 2 ^ 31 ∨ quote ∈ field'.fieldName)) := by
  rw [getHeader] at h
  obtain ⟨headerStart, _, -, h⟩ := bind_ok_iff.mp h
  rw [position_bind] at h
  obtain ⟨c, _, hidx, h⟩ := bind_ok_iff.mp h
  obtain ⟨hc, rfl⟩ := atIndex_eq_ok.mp hidx
  rw [getHeaderAt] at h
  split_ifs at h with hopen hclose hquote
  · cases h
    rw [hc, hopen]
    exact Or.inl rfl
  · rw [setPosition_bind] at h
    obtain ⟨hfield, -⟩ := pure_eq_ok.mp h
    cases hfield
    exact Or.inr (Or.inl rfl)
  · rw [getNamed] at h
    obtain ⟨_, p₃, hkey, h⟩ := bind_ok_iff.mp h
    rw [position_bind] at h
    obtain ⟨info₁, _, hreport, h⟩ := bind_ok_iff.mp h
    obtain ⟨_, _, -, h⟩ := bind_ok_iff.mp h
    obtain ⟨_, _, -, h⟩ := bind_ok_iff.mp h
    rw [position_bind] at h
    obtain ⟨_, _, -, h⟩ := bind_ok_iff.mp h
    obtain ⟨_, _, -, h⟩ := bind_ok_iff.mp h
    rw [position_bind] at h
    obtain ⟨_, _, -, h⟩ := bind_ok_iff.mp h
    rw [setPosition_bind] at h
    obtain ⟨hfield, -⟩ := pure_eq_ok.mp h
    cases hfield
    exact Or.inr (Or.inr ⟨(reportIf_always hreport).1, readKey_length hkey⟩)
  · obtain ⟨info₁, p₃, hreport, -⟩ := bind_ok_iff.mp h
    cases hreport

/-- No scalar begins with a brace. -/
theorem readScalar_brace {fuel : Nat} {s : Scalar} {v : s.Val} (hbrace : m.data[p]? = some openBrace) :
    readScalar fuel s m p ≠ .ok (v, q) := by
  intro h
  have hat := Memory.at_of_getElem? hbrace
  have hlt : p < m.size := (List.getElem?_eq_some_iff.mp hbrace).1
  cases s with
  | bool =>
    have hfalse : startsWord (str "false") m p = .ok (false, p) :=
      startsWord_other hat (by decide)
    have htrue : startsWord (str "true") m p = .ok (false, p) :=
      startsWord_other hat (by decide)
    rw [readScalar, readBool, bind_of_ok hfalse, if_neg Bool.false_ne_true,
      bind_of_ok htrue, if_neg Bool.false_ne_true] at h
    cases h
  | int w =>
    have hdigits : takeDigits 30 m p = .ok ([], p) := by
      rw [takeDigits, bind_of_ok (getByte_at hat), if_neg (by decide), bind_of_ok advance_back]
      rfl
    rw [readScalar, readNumber, position_bind, bind_of_ok (getByte_at hat),
      if_neg (by decide), bind_of_ok advance_back, bind_of_ok hdigits, if_pos rfl] at h
    cases h
  | string =>
    rw [readScalar, readString, position_bind, ByteReader.size_bind,
      if_neg (not_le.mpr hlt), bind_of_ok (getByte_at hat), if_pos (by decide)] at h
    cases h

/-- Whatever is read, the values are default ones and the keys such as the
reader of keys can give. -/
theorem emplaced_getEntries {fuel' : Nat} {s : Scalar} : ∀ {fuel p q : Nat}
    {value result : SortedMap Bytes s.Val} {field : Field}, Emplaced s.default value →
    getEntries s.default (get fuel' (.scalar s)) fuel value field m p = .ok (result, q) →
    Emplaced s.default result
  | 0, _, _, _, _, _, _, h => by cases h
  | fuel + 1, p, q, value, result, field, hval, h => by
    rw [getEntries] at h
    obtain ⟨⟨_, _⟩, _, hhdr, h⟩ := bind_ok_iff.mp h
    dsimp only at h
    split_ifs at h with hend
    · cases h
      exact hval
    · obtain ⟨v, _, hread, h⟩ := bind_ok_iff.mp h
      rcases getHeader_always hhdr with hbrace | hmarker | ⟨hne, hname⟩
      · exact absurd hread (readScalar_brace hbrace)
      · exact absurd hmarker hend
      · exact emplaced_getEntries (hval.tryEmplace hne hname) h

/-! ## The map among the members of a struct -/

variable (name : Identifier)

/-- The member that holds the map, with what follows it. -/
abbrev mapAnd (holder : Holder) (kind : MapKind) (s : Scalar) (post : Members) : Members :=
  .leaf name holder (.map kind .string (.scalar s)) post

/-- What the map in an object that is read into can hold. -/
def MapEmplaced {name : Identifier} {holder : Holder} {kind : MapKind} {s : Scalar} {post : Members}
    (pre : Members) (v : (pre.append (mapAnd name holder kind s post)).Val) : Prop :=
  ∀ value ∈ Slot.get? (h := holder) (pre.dropVal v).1, Emplaced s.default value

section Keeps

variable {abi : Abi} {fuel : Nat} {check : ProtocolCheck} {name : Identifier} {holder : Holder}
  {kind : MapKind} {s : Scalar} {post : Members}

/-- No member that is read puts anything else into the map. -/
theorem mapEmplaced_readMember : ∀ (pre : Members) {ctx : MemberContext} {index p p' : Nat}
    {v w : (pre.append (mapAnd name holder kind s post)).Val} {field field' : Field}
    {info info' : DeserialiserInfo}, MapEmplaced pre v →
    (pre.append (mapAnd name holder kind s post)).readMember (json abi fuel) fuel check ctx index v
      field info m p = .ok ((w, field', info'), p') → MapEmplaced pre w
  | .nil, ctx, 0, p, p', (x, xs), w, field, field', info, info', hv, h => by
    obtain ⟨⟨x', field₁, info₁⟩, hread, hw⟩ := map_ok_iff.mp h
    cases hw
    rw [readPlain] at hread
    split_ifs at hread with htype
    · obtain ⟨_, _, -, hread⟩ := bind_ok_iff.mp hread
      obtain ⟨_, _, -, hread⟩ := bind_ok_iff.mp hread
      obtain ⟨rfl, -⟩ := Prod.mk.inj (pure_eq_ok.mp hread).1
      exact hv
    · obtain ⟨⟨value, _⟩, _, hleaf, hread⟩ := bind_ok_iff.mp hread
      obtain ⟨_, _, -, hread⟩ := bind_ok_iff.mp hread
      obtain ⟨rfl, -⟩ := Prod.mk.inj (pure_eq_ok.mp hread).1
      obtain ⟨_, hget, hpair⟩ := map_ok_iff.mp hleaf
      cases hpair
      intro value hval
      obtain rfl := Option.some.inj (Slot.get?_holding.symm.trans hval)
      refine emplaced_getEntries ?_ hget
      -- an object that is created for the map is empty
      rw [Slot.getOrCreate]
      cases hx : x.get? with
      | none => exact fun e he => absurd he not_mem_nil
      | some a => exact hv a hx
  | .nil, ctx, index + 1, p, p', (x, xs), w, field, field', info, info', hv, h => by
    obtain ⟨⟨xs', field₁, info₁⟩, -, hw⟩ := map_ok_iff.mp h
    cases hw
    exact hv
  | .leaf _ _ _ _, _, 0, _, _, (_, _), _, _, _, _, _, hv, h
  | .nested _ _ _ _ _, _, 0, _, _, (_, _), _, _, _, _, _, hv, h
  | .structs _ _ _ _ _ _, _, 0, _, _, (_, _), _, _, _, _, _, hv, h => by
    obtain ⟨⟨x', field₁, info₁⟩, -, hw⟩ := map_ok_iff.mp h
    cases hw
    exact hv
  | .leaf _ _ _ rest, _, index + 1, _, _, (_, _), _, _, _, _, _, hv, h
  | .nested _ _ _ _ rest, _, index + 1, _, _, (_, _), _, _, _, _, _, hv, h
  | .structs _ _ _ _ _ rest, _, index + 1, _, _, (_, _), _, _, _, _, _, hv, h => by
    obtain ⟨⟨xs', field₁, info₁⟩, hread, hw⟩ := map_ok_iff.mp h
    cases hw
    exact mapEmplaced_readMember rest hv hread

theorem mapEmplaced_deserialise {typeName : Bytes} {pre : Members}
    {v w : (pre.append (mapAnd name holder kind s post)).Val} {info : DeserialiserInfo}
    (hv : MapEmplaced pre v)
    (h : deserialise (json abi fuel) check fuel ⟨typeName, pre.append (mapAnd name holder kind s post)⟩
      v m p = .ok ((w, info), q)) : MapEmplaced pre w :=
  readRoot_invariant
    (fun _ _ _ _ _ _ _ _ _ _ ha hread => mapEmplaced_readMember pre ha hread) hv h

end Keeps

/-! ## The map without entries -/

/-- The brace that opens the map is taken back. -/
theorem put_empty (abi : Abi) (kind : MapKind) (value : ValueTy) {v : SortedMap Bytes value.Val}
    (h : v.entries = []) : put abi (.map kind .string value) v = .ok (str "\n\x7d\n") := by
  have horder : abi.order kind v = [] := by
    have hperm := abi.order_perm kind v
    rw [h] at hperm
    exact hperm.eq_nil
  rw [put, horder]
  rfl

/-- The header of the empty map, which is no object. -/
theorem getHeader_empty {name : Bytes} {later : List Bytes} {stop : Nat} (hname : Plain name)
    (hahead : Ahead m p (fieldText name (str "\n\x7d\n") :: later) stop) (check : ProtocolCheck)
    (info : DeserialiserInfo) (field : Field) :
    ∃ field' q, getHeader check info field m p = .ok ((info, field'), q) ∧
      field'.intDataType = otherId ∧ field'.fieldName = name := by
  obtain ⟨_, hlead, hat, -⟩ := hahead
  rw [fieldText_append] at hat
  obtain ⟨headerStart, _, -, -, -, hhdr⟩ := getHeader_named (str " \n") hlead hname rfl
    (by decide) hat
  exact ⟨_, _, hhdr check info field, rfl, rfl⟩

/-- The loop throws within `n` more rounds. -/
def Throws (abi : Abi) (fuel : Nat) {α : Type} (R : StructReader α) (parentName : Bytes)
    (size : Bytes → Nat) (m : Memory) (depth : UInt8) (n : Nat) (a : α) (p : Nat) : Prop :=
  ∀ field info rounds, field.hierarchyDepth = depth → Clean size info →
    Tracked .always parentName info → n < rounds →
    ∃ e, readFields (json abi fuel) .always R parentName rounds a field info m p = .error e

section Empty

variable {abi : Abi} {fuel : Nat} {α : Type} {R : StructReader α} {before : List Bytes}
  {size : Bytes → Nat} {parentName : Bytes} {stop : Nat} {depth : UInt8} {n : Nat} {a b : α}

theorem Throws.of_consumes
    (h : Consumes (json abi fuel) .always R parentName size m 1 (·.hierarchyDepth = depth) a p
      (·.hierarchyDepth = depth) b q) (hnext : Throws abi fuel R parentName size m depth n b q) :
    Throws abi fuel R parentName size m depth (n + 1) a p := by
  intro field info rounds hfield hclean htr hrnds
  obtain ⟨field', info', hfield', hclean', hkeeps, hrun⟩ :=
    h field info hfield hclean htr (rounds - 1)
  rw [show rounds = rounds - 1 + 1 by omega, hrun]
  exact hnext field' info' _ hfield' hclean' (htr.of_keeps hkeeps) (by omega)

variable {name : Identifier} {holder : Holder} {kind : MapKind} {s : Scalar} {post : Members}

theorem throws_empty {C : (mapAnd name holder kind s post).Val → α} {later : List Bytes}
    (hemb : Embeds (json abi fuel) fuel .always R before (mapAnd name holder kind s post) C)
    (hnd : R.names.Nodup) (hshort : name.bytes.length < 2 ^ 31)
    (old : (mapAnd name holder kind s post).Val)
    (hahead : Ahead m p (fieldText (sanitizeFieldName name.bytes) (str "\n\x7d\n") :: later) stop) :
    Throws abi fuel R parentName size m depth n (C old) p := by
  obtain ⟨y, ys⟩ := old
  rintro field info (_ | _) - - - hrnds
  · cases hrnds
  obtain ⟨field₁, q, hhdr, htype, hname⟩ :=
    getHeader_empty (plain_sanitizeFieldName name hshort) hahead .always info field
  -- the two markers differ, and `ALWAYS` throws at that
  have hmismatch : (json abi fuel).typeId (.map kind .string (.scalar s)) ≠ field₁.intDataType ∧
      (json abi fuel).typeId (.map kind .string (.scalar s)) ≠ (json abi fuel).otherId := by
    rw [htype]
    exact ⟨show startMarkerId ≠ otherId by decide, show startMarkerId ≠ otherId by decide⟩
  have hthrow : ∀ ctx p, ∃ e, R.readMember ctx before.length (C (y, ys)) field₁ info m p = .error e := by
    intro ctx p
    have hread := hemb.read ctx 0 (y, ys) field₁ info
    rw [add_zero] at hread
    rw [hread]
    obtain ⟨e, hplain⟩ := readPlain_mismatch ctx name.bytes
      ((json abi fuel).getLeaf (.map kind .string (.scalar s))) y info
      (ValueTy.default (.map kind .string (.scalar s))) hmismatch
    refine ⟨e, map_of_error ?_ _⟩
    exact map_of_error hplain _
  obtain ⟨e, hread⟩ := hthrow ⟨parentName, before.length, field.subfields⟩ field₁.dataStartPosition
  refine ⟨e, readFields_member_error
    (lt_of_lt_of_le hahead.stop_le_size.1 hahead.stop_le_size.2) hhdr ?_ ?_ hread⟩
  · rw [htype]
    exact show otherId ≠ endMarkerId by decide
  · rw [hname]
    exact hemb.findMemberIndex rfl hnd

variable {tail : Members} {text : Bytes} {old : tail.Val} (hnd : R.names.Nodup)
  (hnames : R.names.length = size parentName) (hfuel : m.size < fuel)
  (htail : ∀ {before : List Bytes} {C : tail.Val → α} {later : List Bytes} {p : Nat},
    ShortNames tail → Embeds (json abi fuel) fuel .always R before tail C →
    Ahead m p (text :: later) stop → Throws abi fuel R parentName size m depth 0 (C old) p)

include hnd hnames hfuel htail in
/-- The reader throws when it has come to what it cannot read. -/
theorem throws_pre : ∀ (pre : Members) {x x₀ : pre.Val} {before : List Bytes}
    {C : (pre.append tail).Val → α} {later : List Bytes} {p : Nat}, ReadableMembers pre x →
    ShortNames (pre.append tail) → (pre.append tail).DistinctNames →
    (pre.append tail).Sized rootName size → depth.toNat + (pre.append tail).depth < 256 →
    Embeds (json abi fuel) fuel .always R before (pre.append tail) C →
    Ahead m p (items abi pre x ++ text :: later) stop →
    Throws abi fuel R parentName size m depth (items abi pre x).length (C (pre.appendVal x₀ old)) p
  | .nil, x, x₀, before, C, later, p, _, hshort, _, _, _, hemb, hahead =>
    htail hshort hemb hahead
  | .leaf _ _ ty rest, (x, xs), (z, zs), before, C, later, p, hrd, hshort, hdistinct, hsized,
      hdepth, hemb, hahead => by
    rw [items] at hahead ⊢
    cases hx : x.get? with
    | none =>
      rw [hx] at hahead
      exact throws_pre rest hrd.2 hshort.2 hdistinct.2 hsized hdepth (hemb.tail_leaf z)
        hahead
    | some a =>
      rw [hx] at hahead
      obtain ⟨q, hahead, hrnd⟩ := consumes_leaf depth hnd hnames hshort.1 hfuel hemb
        z (rest.appendVal zs old) (hrd.1 a hx) hahead
      exact Throws.of_consumes hrnd (throws_pre rest hrd.2 hshort.2 hdistinct.2 hsized
        hdepth (hemb.tail_leaf _) hahead)
  | .nested _ _ _ inner rest, (x, xs), (z, zs), before, C, later, p, hrd, hshort, hdistinct,
      hsized, hdepth, hemb, hahead => by
    have hlevel : depth.toNat + max (inner.depth + 1) (rest.append tail).depth < 256 := hdepth
    rw [items] at hahead ⊢
    cases hx : x.get? with
    | none =>
      rw [hx] at hahead
      exact throws_pre rest hrd.2 hshort.2.2 hdistinct.2.2 hsized.2.2 (by omega)
        (hemb.tail_nested z) hahead
    | some a =>
      rw [hx] at hahead
      obtain ⟨q, hahead, hrnd⟩ := consumes_nested depth hnd hnames hshort.1 hfuel
        hemb (readsBack abi fuel inner .always) z (rest.appendVal zs old) (hrd.1 a hx)
        hshort.2.1 hdistinct.2.1 hsized.1 hsized.2.1 (by omega) hahead
      exact Throws.of_consumes hrnd (throws_pre rest hrd.2 hshort.2.2 hdistinct.2.2
        hsized.2.2 (by omega) (hemb.tail_nested _) hahead)
  | .structs _ _ _ _ inner rest, (x, xs), (z, zs), before, C, later, p, hrd, hshort,
      hdistinct, hsized, hdepth, hemb, hahead => by
    have hlevel : depth.toNat + max inner.depth (rest.append tail).depth < 256 := hdepth
    rw [items] at hahead ⊢
    cases hx : x.get? with
    | none =>
      rw [hx] at hahead
      exact throws_pre rest hrd.2 hshort.2.2 hdistinct.2.2 hsized.2 (by omega)
        (hemb.tail_structs z) hahead
    | some as =>
      rw [hx] at hahead
      obtain ⟨q, hahead, hrnd⟩ := consumes_structs depth hnd hnames hshort.1 hfuel
        hemb (readsBack abi fuel inner .lenient) z (rest.appendVal zs old) (hrd.1 as hx)
        hshort.2.1 hdistinct.2.1 hsized.1 (by omega) hahead
      exact Throws.of_consumes hrnd (throws_pre rest hrd.2 hshort.2.2 hdistinct.2.2
        hsized.2 (by omega) (hemb.tail_structs _) hahead)

end Empty

/-! ## The round trip -/

section Append

variable {abi : Abi} {ms : Members}

theorem items_append (v : ms.Val) : ∀ (pre : Members) (x : pre.Val),
    items abi (pre.append ms) (pre.appendVal x v) = items abi pre x ++ items abi ms v
  | .nil, _ => rfl
  | .leaf _ _ _ rest, (x, xs) | .nested _ _ _ _ rest, (x, xs) | .structs _ _ _ _ _ rest, (x, xs) => by
    have ih := items_append v rest xs
    cases hx : x.get? <;> simpa [items, Members.append, Members.appendVal, hx] using ih

theorem written_append {v : ms.Val} (hv : Written abi ms v) : ∀ (pre : Members) {x : pre.Val},
    Written abi pre x → Written abi (pre.append ms) (pre.appendVal x v)
  | .nil, _, _ => hv
  | .leaf _ _ _ rest, (_, _), h | .nested _ _ _ _ rest, (_, _), h
  | .structs _ _ _ _ _ rest, (_, _), h => ⟨h.1, written_append hv rest h.2⟩

theorem readableMembers_append {v : ms.Val} (hv : ReadableMembers ms v) : ∀ (pre : Members)
    {x : pre.Val}, ReadableMembers pre x → ReadableMembers (pre.append ms) (pre.appendVal x v)
  | .nil, _, _ => hv
  | .leaf _ _ _ rest, (_, _), h | .nested _ _ _ _ rest, (_, _), h
  | .structs _ _ _ _ _ rest, (_, _), h => ⟨h.1, readableMembers_append hv rest h.2⟩

theorem rereadMembers_append (v old : ms.Val) : ∀ (pre : Members) (x x₀ : pre.Val),
    rereadMembers abi (pre.append ms) (pre.appendVal x v) (pre.appendVal x₀ old) =
      pre.appendVal (rereadMembers abi pre x x₀) (rereadMembers abi ms v old)
  | .nil, _, _ => rfl
  | .leaf _ _ _ rest, (_, xs), (_, xs₀) | .nested _ _ _ _ rest, (_, xs), (_, xs₀)
  | .structs _ _ _ _ _ rest, (_, xs), (_, xs₀) => congrArg _ (rereadMembers_append v old rest xs xs₀)

end Append

/-- A map of default values is read back into an empty one. -/
theorem reread_map (abi : Abi) (kind : MapKind) (value : ValueTy) {v : SortedMap Bytes value.Val}
    (h : ∀ e ∈ v.entries, e.2 = value.default) : reread abi (.map kind .string value) v ∅ = v := by
  have hperm := abi.order_perm kind v
  have hfold : reread abi (.map kind .string value) v ∅ = SortedMap.ofEntries (abi.order kind v) :=
    foldl_ext _ _ _ fun m e he => by rw [h e (hperm.mem_iff.mp he)]
  rw [hfold, SortedMap.ofEntries_perm hperm]

section RoundTrip

variable {abi : Abi} {typeName : Bytes} {pre post : Members} {name : Identifier} {holder : Holder}
  {kind : MapKind} {s : Scalar} {x : pre.Val} {y : post.Val} {v : SortedMap Bytes s.Val}

/-- Enough that the reader cannot do more than make default values. -/
theorem emplaced_of_recovers
    (h : Recovers (json abi) .always ⟨typeName, pre.append (mapAnd name holder kind s post)⟩
      (pre.appendVal x (holding holder v, y))
      (pre.append (mapAnd name holder kind s post)).default) : Emplaced s.default v := by
  obtain ⟨text, hall⟩ := h
  obtain ⟨_, q, hread⟩ := (hall (text.length + 1)).2 (fun _ => none) (lt_succ_self _)
  have hdefault : MapEmplaced pre (pre.append (mapAnd name holder kind s post)).default := by
    rw [Members.default_append, MapEmplaced, Members.dropVal_appendVal]
    intro value hval
    obtain rfl := Slot.eq_of_get?_default hval
    exact fun e he => absurd he not_mem_nil
  have hmap := mapEmplaced_deserialise hdefault hread
  rw [MapEmplaced, Members.dropVal_appendVal] at hmap
  exact hmap v Slot.get?_holding

/-- The outermost object is read by the loop over its fields. -/
theorem deserialise_object (T : StructTy) {size : Bytes → Nat} {texts : List Bytes}
    (hat : m.At 0 (objectText texts)) (hsize : T.members.names.length = size rootName) (fuel : Nat)
    (check : ProtocolCheck) (init : T.members.Val) :
    ∃ field info, field.hierarchyDepth = 0 ∧ Clean size info ∧ Tracked check rootName info ∧
      deserialise (json abi fuel) check fuel T init m 0 =
        readFields (json abi fuel) check (T.members.reader (json abi fuel) fuel check T.typeName)
          rootName fuel init field info m 1 := by
  obtain ⟨hclean, htr, -⟩ :=
    initSetFields_spec check rootName T.members.names.length (clean_empty size) fun _ => hsize
  generalize hinfo : initSetFields check rootName T.members.names.length {} = info at hclean htr
  obtain ⟨field, hhdr, hdepth, hstart, hname⟩ : ∃ field, getHeader check info
      (newFieldHeader m.size [] 0 otherId (-1)) m 0 = .ok ((info, field), 0) ∧
      field.hierarchyDepth = 0 ∧ field.dataStartPosition = 1 ∧ field.fieldName = [] := by
    obtain ⟨headerStart, hhdr⟩ := getHeader_start hat check info
      (newFieldHeader m.size [] 0 otherId (-1))
    exact ⟨_, hhdr, rfl, rfl, rfl⟩
  refine ⟨field, info, hdepth, hclean, htr, ?_⟩
  have hroot : deserialise (json abi fuel) check fuel T init m 0 = readStruct (json abi fuel) check
      (T.members.reader (json abi fuel) fuel check T.typeName) fuel
        (newFieldHeader m.size rootName 0 otherId (-1)) init {} m 0 :=
    readRoot_eq rfl rfl
  rw [← hstart]
  rw [← hinfo] at hhdr ⊢
  exact hroot.trans (readStruct_eq hhdr (fun _ => Or.inr hname) rfl)

section Empty

variable (hmaps : NoMaps pre) (hmaps' : NoMaps post)
  (hshort : ShortNames (pre.append (mapAnd name holder kind s post)))
  (hdistinct : (pre.append (mapAnd name holder kind s post)).DistinctNames)
  (hsized : ∃ size, (pre.append (mapAnd name holder kind s post)).names.length = size rootName ∧
    (pre.append (mapAnd name holder kind s post)).Sized rootName size)
  (hdepth : (pre.append (mapAnd name holder kind s post)).depth ≤ 255)
include hmaps hshort hdistinct hsized hdepth

/-- The text of an empty map makes the reader throw. -/
theorem deserialise_empty {fuel : Nat} (typeName : Bytes) (hfuel : m.size < fuel)
    (hat : m.At 0 (objectText (items abi pre x ++
      fieldText (sanitizeFieldName name.bytes) (str "\n\x7d\n") :: items abi post y)))
    (x₀ : pre.Val) (old : (mapAnd name holder kind s post).Val) :
    ∃ e, deserialise (json abi fuel) .always fuel
      ⟨typeName, pre.append (mapAnd name holder kind s post)⟩ (pre.appendVal x₀ old) m 0 =
        .error e := by
  obtain ⟨size, hsize, hsized⟩ := hsized
  obtain ⟨field, info, hfield, hclean, htr, hloop⟩ := deserialise_object
    ⟨typeName, pre.append (mapAnd name holder kind s post)⟩ hat hsize fuel .always
    (pre.appendVal x₀ old)
  have hthrows : Throws abi fuel _ rootName size m 0 _ (pre.appendVal x₀ old) (0 + 1) :=
    throws_pre hdistinct.nodup hsize hfuel
      (fun hshort hemb => throws_empty hemb hdistinct.nodup hshort.1 old) pre
      (readable_of_noMaps hmaps x) hshort hdistinct hsized
      (by show 0 + _ < 256; omega) (embeds_reader (json abi fuel) fuel .always typeName _)
      (ahead_object hat)
  have hrnds : (items abi pre x).length < fuel := by
    have hcnt := items_length_le (items abi pre x ++
      fieldText (sanitizeFieldName name.bytes) (str "\n\x7d\n") :: items abi post y) fun item hitem => by
        rcases mem_append.mp hitem with hitem | hitem
        · exact items_ne_nil abi pre x item hitem
        · rcases mem_cons.mp hitem with rfl | hitem
          · exact cons_ne_nil _ _
          · exact items_ne_nil abi post y item hitem
    have hle := hat.le_size
    rw [length_append] at hcnt
    omega
  obtain ⟨e, hthrow⟩ := hthrows field info fuel hfield hclean htr hrnds
  exact ⟨e, hloop.trans hthrow⟩

include hmaps'

/-- An empty map does not come back. -/
theorem entries_ne_nil_of_recovers
    (h : Recovers (json abi) .always ⟨typeName, pre.append (mapAnd name holder kind s post)⟩
      (pre.appendVal x (holding holder v, y))
      (pre.append (mapAnd name holder kind s post)).default) : v.entries ≠ [] := by
  intro hemp
  obtain ⟨text, hall⟩ := h
  have hput := put_empty abi kind (.scalar s) hemp
  have hbraceless : plainText abi (.map kind .string (.scalar s)) v = str "\n\x7d\n" := by
    rw [plainText, hput]
    rfl
  have hwritten : Written abi (mapAnd name holder kind s post) (holding holder v, y) := by
    refine ⟨fun a ha => ?_, written_of_readable abi (readable_of_noMaps hmaps' y)⟩
    obtain rfl := Option.some.inj (Slot.get?_holding.symm.trans ha)
    rw [hbraceless, hput]
  have hitems : items abi (pre.append (mapAnd name holder kind s post))
      (pre.appendVal x (holding holder v, y)) = items abi pre x ++
        fieldText (sanitizeFieldName name.bytes) (str "\n\x7d\n") :: items abi post y := by
    rw [items_append, items, Slot.get?_holding, ← hbraceless]
  have htext := (hall 0).1.symm.trans
    (serialise_root
      (written_append hwritten pre (written_of_readable abi (readable_of_noMaps hmaps x))) hdepth 0)
  rw [hitems] at htext
  obtain ⟨_, q, hread⟩ := (hall (text.length + 1)).2 (fun _ => none) (lt_succ_self _)
  have hat : Memory.At ⟨text, fun _ => none⟩ 0 (objectText (items abi pre x ++
      fieldText (sanitizeFieldName name.bytes) (str "\n\x7d\n") :: items abi post y)) := by
    rw [← Except.ok.inj htext]
    exact Memory.at_data _
  rw [Members.default_append] at hread
  obtain ⟨e, hthrow⟩ := deserialise_empty hmaps hshort hdistinct hsized hdepth typeName
    (lt_succ_self text.length) hat pre.default (mapAnd name holder kind s post).default
  cases hthrow.symm.trans hread

end Empty

/-- A struct with a map from strings to scalars among its members is read
back exactly when the map has entries, with keys the reader can take, and
all their values are default ones. -/
theorem json_map_recovers_iff (abi : Abi) (typeName : Bytes) (pre post : Members) (name : Identifier)
    (holder : Holder) (kind : MapKind) (s : Scalar) (x : pre.Val) (y : post.Val)
    (v : SortedMap Bytes s.Val) (hmaps : NoMaps pre) (hmaps' : NoMaps post)
    (hshort : ShortNames (pre.append (mapAnd name holder kind s post)))
    (hdistinct : (pre.append (mapAnd name holder kind s post)).DistinctNames)
    (hsized : ∃ size, (pre.append (mapAnd name holder kind s post)).names.length = size rootName ∧
      (pre.append (mapAnd name holder kind s post)).Sized rootName size)
    (hdepth : (pre.append (mapAnd name holder kind s post)).depth ≤ 255)
    (hkeys : ∀ e ∈ v.entries, quote ∉ e.1 ∧ backslash ∉ e.1) :
    Recovers (json abi) .always ⟨typeName, pre.append (mapAnd name holder kind s post)⟩
        (pre.appendVal x (holding holder v, y))
        (pre.append (mapAnd name holder kind s post)).default ↔
      v.entries ≠ [] ∧ ∀ e ∈ v.entries, e.1 ≠ [] ∧ e.1.length < 2 ^ 31 ∧ e.2 = s.default := by
  constructor
  · intro h
    refine ⟨entries_ne_nil_of_recovers hmaps hmaps' hshort hdistinct hsized hdepth h, fun e he => ?_⟩
    obtain ⟨hne, hlen, hval⟩ := emplaced_of_recovers h e he
    exact ⟨hne, hlen.resolve_right (hkeys e he).1, hval⟩
  · rintro ⟨hne, hents⟩
    have hplain : ∀ e ∈ v.entries, Plain e.1 := fun e he =>
      ⟨(hents e he).1, fun c hc => ⟨fun h => (hkeys e he).1 (h ▸ hc), fun h => (hkeys e he).2 (h ▸ hc)⟩,
        (hents e he).2.1⟩
    have hmap : ReadableMembers (mapAnd name holder kind s post) (holding holder v, y) := by
      refine ⟨fun a ha => ?_, readable_of_noMaps hmaps' y⟩
      obtain rfl := Option.some.inj (Slot.get?_holding.symm.trans ha)
      exact ⟨hne, fun e he => ⟨hplain e he, trivial⟩⟩
    have hrd := readableMembers_append hmap pre (readable_of_noMaps hmaps x)
    have hsame : rereadMembers abi (pre.append (mapAnd name holder kind s post))
        (pre.appendVal x (holding holder v, y))
        (pre.append (mapAnd name holder kind s post)).default =
          pre.appendVal x (holding holder v, y) := by
      rw [Members.default_append, rereadMembers_append,
        rereadMembers_of_noMaps abi hmaps x _ (pre.covers_default x)]
      congr 1
      rw [Members.default, rereadMembers, Slot.get?_holding,
        rereadMembers_of_noMaps abi hmaps' y _ (post.covers_default y)]
      dsimp only
      rw [Slot.getOrCreate_default]
      congr 2
      exact reread_map abi kind (.scalar s) fun e he => (hents e he).2.2
    refine ⟨_, fun fuel => ⟨serialise_root
      (written_of_readable abi hrd) hdepth fuel, fun beyond hfuel => ?_⟩⟩
    obtain ⟨info, -, hread⟩ := deserialise_serialise

      (pre.append (mapAnd name holder kind s post)).default hrd hshort hdistinct hsized hdepth
      .always beyond hfuel
    rw [hsame] at hread
    exact ⟨info, _, hread⟩

end RoundTrip

def flag : Members := .leaf name .direct (.scalar .bool) .nil

theorem noMaps_flag : NoMaps (flag name) :=
  ⟨fun _ _ _ h => ValueTy.noConfusion h, trivial⟩

/-- A flag before a map of counts, and one behind it. -/
def counters : StructTy where
  typeName := str "Counters"
  members := (flag ⟨str "ready", by decide⟩).append
    (mapAnd ⟨str "counts", by decide⟩ .direct .map (.int .w32) (flag ⟨str "done", by decide⟩))

def counting (counts : SortedMap Bytes (Signed .w32)) : counters.members.Val :=
  (flag ⟨str "ready", by decide⟩).appendVal (true, ()) (holding .direct counts, true, ())

/-- The map may hold zeros. -/
theorem json_map_recovers_zero :
    Recovers (json sortedAbi) .always counters
      (counting (SortedMap.ofEntries [(str "k", Signed.ofInt .w32 0)])) counters.members.default :=
  (json_map_recovers_iff sortedAbi (str "Counters") (flag ⟨str "ready", by decide⟩)
    (flag ⟨str "done", by decide⟩) ⟨str "counts", by decide⟩ .direct .map (.int .w32) (true, ())
    (true, ()) (SortedMap.ofEntries [(str "k", Signed.ofInt .w32 0)]) (noMaps_flag _) (noMaps_flag _)
    (by decide +kernel) (by decide +kernel) ⟨fun _ => 3, rfl, trivial⟩ (by decide)
    (by decide +kernel)).mpr (by decide +kernel)

/-- A count that is not zero is lost, and an empty map cannot be read. -/
theorem not_json_map_recovers :
    ¬ Recovers (json sortedAbi) .always counters
      (counting (SortedMap.ofEntries [(str "k", Signed.ofInt .w32 1)])) counters.members.default ∧
    ¬ Recovers (json sortedAbi) .always counters (counting ∅) counters.members.default := by
  refine ⟨fun h => ?_, fun h => ?_⟩
  · have hval := emplaced_of_recovers h
    exact absurd (hval (str "k", Signed.ofInt .w32 1) (by decide +kernel)).2.2 (by decide +kernel)
  · exact entries_ne_nil_of_recovers (noMaps_flag _) (noMaps_flag _) (by decide +kernel)
      (by decide +kernel) ⟨fun _ => 3, rfl, trivial⟩ (by decide) h rfl

end OpenCmw.Io.Json
