import OpenCmw.JsonSerialiser

/-!
# JSON values and headers are read back

What the JSON reader makes of a value depends on the character behind it:
a number ends at the first character that is no digit, and the words
`true` and `false` are recognised only if something follows. `ReadsIn`
says that a reader consumes exactly a text that stands in front of some
character that is no digit, which the writer always provides.

The memory is fixed, since the readers of arrays of structs need as many
rounds as there are bytes.
-/

namespace OpenCmw.Io.Json

open Or (inr inl)
open List Nat Int ByteReader

variable {m : Memory} {p : Nat}

/-! ## Scanning -/

/-- Whitespace only. -/
def Blank (ws : Bytes) : Prop := ws.all isWhitespace = true

theorem blank_nil : Blank [] := rfl

variable {ws rest : Bytes} {c : UInt8} {w : IntWidth} {fuel : Nat} {α β : Type} {enc : α → Bytes}
  {r : Get β} {n : Option Nat} {name lead : Bytes} {items : List Bytes} {stop : Nat}

theorem Blank.append {ws' : Bytes} (h : Blank ws) (h' : Blank ws') : Blank (ws ++ ws') := by
  rw [Blank, all_append, h, h']
  rfl

theorem consumeWhitespace_blank (hws : Blank ws)
    (hc : isWhitespace c = false) (hat : m.At p (ws ++ c :: rest)) :
    consumeWhitespace m p = .ok ((), p + ws.length) := by
  obtain ⟨_, hdrop⟩ := hat.drop
  have hspan : (m.data.drop p).takeWhile isWhitespace = ws := by
    rw [hdrop, append_assoc, takeWhile_append_of_pos (all_eq_true.mp hws), cons_append,
      takeWhile_cons_of_neg (by rw [hc]; exact Bool.false_ne_true), append_nil]
  show Except.ok ((), p + ((m.data.drop p).takeWhile isWhitespace).length) = _
  rw [hspan]

theorem consumeWhitespace_none (hc : isWhitespace c = false)
    (hat : m.At p (c :: rest)) : consumeWhitespace m p = .ok ((), p) :=
  consumeWhitespace_blank blank_nil hc hat

theorem atIndex_at (hat : m.At p (c :: rest)) (q : Nat) : atIndex p m q = .ok (c, q) := by
  obtain ⟨pre, _, hdata, rfl⟩ := hat
  have hbyte : m.data[pre.length]? = some c := by
    rw [hdata]
    simp
  rw [atIndex, hbyte]

theorem getByte_at (hat : m.At p (c :: rest)) : getByte m p = .ok (c, p + 1) := by
  rw [getByte, hat.byteAt]

theorem advance_nat {n : Nat} {bytes : Int} (h : bytes = n) :
    advance bytes m p = .ok ((), p + n) := by
  rw [h, advance, position_bind, ← natCast_add, toSize_natCast]
  rfl

theorem advance_back : advance (-1) m (p + 1) = .ok ((), p) := by
  rw [advance, position_bind, show ((p + 1 : Nat) : Int) + -1 = (p : Nat) by omega, toSize_natCast]
  rfl

theorem asString_at {text : Bytes} (hat : m.At p (text ++ rest)) (q : Nat) :
    asString p text.length m q = .ok (text, q) := by
  have hsize := hat.left.le_size
  obtain ⟨_, hdrop⟩ := hat.left.drop
  rw [asString, if_neg (by omega), toNat_natCast, if_neg (by omega), if_neg (by omega), hdrop,
    take_left]

/-- A word with something behind it. -/
theorem startsWord_word {word : Bytes} (hat : m.At p (word ++ c :: rest)) :
    startsWord word m p = .ok (true, p) := by
  have hsize := hat.le_size
  rw [length_append, length_cons] at hsize
  rw [startsWord, position_bind, size_bind, toSize_sub (by omega),
    if_pos (by omega), bind_of_ok (asString_at hat p), beq_self_eq_true]
  rfl

/-- A word that begins with another character. -/
theorem startsWord_other {word : Bytes} {b : UInt8} (hat : m.At p (c :: rest)) (hne : b ≠ c) :
    startsWord (b :: word) m p = .ok (false, p) := by
  have hsize := hat.le_size
  rw [length_cons] at hsize
  rw [startsWord, position_bind, size_bind, toSize_sub (by omega)]
  by_cases hlong : (b :: word).length < m.size - p
  · obtain ⟨post, hdrop⟩ := hat.drop
    have htext : asString p ((b :: word).length : Nat) m p =
        .ok (c :: (rest ++ post).take word.length, p) := by
      rw [asString, if_neg (by omega), toNat_natCast, if_neg (by omega), if_neg (by omega), hdrop]
      rfl
    rw [if_pos hlong, bind_of_ok htext]
    have hbeq : (c :: (rest ++ post).take word.length == b :: word) = false :=
      beq_eq_false_iff_ne.mpr fun h => hne (cons.inj h).1.symm
    rw [hbeq]
    rfl
  · rw [if_neg hlong]
    rfl

/-! ## Scalars -/

/-- In this memory the reader consumes the text, if a character that is no
digit follows. -/
def ReadsIn {α : Type} (m : Memory) (r : Get α) (text : Bytes) (a : α) : Prop :=
  ∀ p c, isDigit c = false → m.At p (text ++ [c]) → r m p = .ok (a, p + text.length)

theorem readBool_readsIn (m : Memory) (b : Bool) : ReadsIn m readBool (writeScalar .bool b) b := by
  intro p c _ hat
  cases b with
  | true =>
    have hfalse : startsWord (str "false") m p = .ok (false, p) :=
      startsWord_other hat (by decide)
    have htrue : startsWord (str "true") m p = .ok (true, p) := startsWord_word hat
    have hadvance : advance 4 m p = .ok ((), p + 4) := advance_nat rfl
    rw [readBool, bind_of_ok hfalse, if_neg Bool.false_ne_true, bind_of_ok htrue, if_pos rfl,
      bind_of_ok hadvance]
    rfl
  | false =>
    have hfalse : startsWord (str "false") m p = .ok (true, p) := startsWord_word hat
    have hadvance : advance 5 m p = .ok ((), p + 5) := advance_nat rfl
    rw [readBool, bind_of_ok hfalse, if_pos rfl, bind_of_ok hadvance]
    rfl

theorem takeDigits_digits : ∀ {digits : Bytes} {n p : Nat} {c : UInt8},
    (∀ d ∈ digits, isDigit d = true) → isDigit c = false → digits.length < n →
    m.At p (digits ++ [c]) → takeDigits n m p = .ok (digits, p + digits.length)
  | [], n + 1, p, c, _, hc, _, hat => by
    rw [takeDigits, bind_of_ok (getByte_at hat), hc, if_neg Bool.false_ne_true,
      bind_of_ok advance_back]
    rfl
  | d :: digits, n + 1, p, c, hdigits, hc, hn, hat => by
    have hrest := takeDigits_digits (fun e he => hdigits e (mem_cons_of_mem d he)) hc
      (lt_of_succ_lt_succ hn) hat.tail
    rw [takeDigits, bind_of_ok (getByte_at hat), if_pos (hdigits d mem_cons_self),
      map_of_ok hrest, length_cons, add_assoc, add_comm 1]

/-- The digits of a machine integer fit into the window that is read. -/
theorem length_toDec_natAbs (i : Signed w) : (toDec i.val.natAbs).length ≤ 19 := by
  have hlo := le_bmod (x := i.val) (m := 256 ^ w.size) (by positivity)
  have hhi := bmod_lt (x := i.val) (m := 256 ^ w.size) (by positivity)
  rw [i.property] at hlo hhi
  have hsize : (256 : Nat) ^ w.size ≤ 2 ^ 64 := by
    cases w <;> decide
  have hlt : i.val.natAbs < 10 ^ 19 := by omega
  rw [toDec, length_map]
  exact toDigits_length 10 _ 19 (by decide) hlt

theorem checkRange_val (i : Signed w) (start : Nat) (m : Memory) (p : Nat) :
    checkRange w start i.val m p = .ok (i, p) := by
  rw [checkRange, dif_pos i.property]
  rfl

theorem readNumber_readsIn (m : Memory) (i : Signed w) :
    ReadsIn m (readNumber w) (toChars i.val) i := by
  intro p c hc hat
  have hlen := length_toDec_natAbs i
  have hdigits : ∀ d ∈ toDec i.val.natAbs, isDigit d = true := fun d hd => isDigit_of_mem_toDec hd
  have hne := toDec_ne_nil i.val.natAbs
  unfold toChars at hat ⊢
  by_cases hneg : i.val < 0
  · rw [if_pos hneg] at hat ⊢
    have htake := takeDigits_digits hdigits hc (n := 29) (by omega) hat.tail
    have hval : (-(i.val.natAbs : Int)) = i.val := by omega
    rw [readNumber, position_bind, bind_of_ok (getByte_at hat), if_pos rfl,
      bind_of_ok htake, if_neg hne, ofDec_toDec, hval, checkRange_val,
      length_cons, add_assoc, add_comm 1]
  · rw [if_neg hneg] at hat ⊢
    have htake := takeDigits_digits hdigits hc (n := 30) (by omega) hat
    have hval : (i.val.natAbs : Int) = i.val := by omega
    obtain ⟨d, _, hcons⟩ := exists_cons_of_ne_nil hne
    have hminus : d ≠ chr '-' := by
      rintro rfl
      have hdigit := hdigits (chr '-') (by rw [hcons]; exact mem_cons_self)
      rw [show isDigit (chr '-') = false by decide] at hdigit
      cases hdigit
    have hbyte : getByte m p = .ok (d, p + 1) := by
      rw [hcons] at hat
      exact getByte_at hat
    rw [readNumber, position_bind, bind_of_ok hbyte, if_neg hminus,
      bind_of_ok advance_back, bind_of_ok htake, if_neg hne, ofDec_toDec, hval, checkRange_val]

/-! ## Strings -/

theorem escape_ne_nil (c : UInt8) : 0 < (escape c).length := by
  unfold escape
  split_ifs <;> exact succ_pos _

/-- What follows a backslash stands for the character that was escaped. -/
theorem readEscape_escape {e : UInt8} (hescape : escape c = [backslash, e])
    (hat : m.At p (e :: rest)) : readEscape m p = .ok (c, p + 1) := by
  unfold escape at hescape
  rw [readEscape, bind_of_ok (getByte_at hat), position_bind, size_bind]
  split_ifs at hescape with hself hb hf hn hr ht
  · obtain rfl : c = e := (cons.inj (cons.inj hescape).2).1
    rw [if_pos hself, Nat.add_sub_cancel, atIndex_at hat]
  · obtain rfl : chr 'b' = e := (cons.inj (cons.inj hescape).2).1
    rw [hb]
    rfl
  · obtain rfl : chr 'f' = e := (cons.inj (cons.inj hescape).2).1
    rw [hf]
    rfl
  · obtain rfl : chr 'n' = e := (cons.inj (cons.inj hescape).2).1
    rw [hn]
    rfl
  · obtain rfl : chr 'r' = e := (cons.inj (cons.inj hescape).2).1
    rw [hr]
    rfl
  · obtain rfl : chr 't' = e := (cons.inj (cons.inj hescape).2).1
    rw [ht]
    rfl
  · cases (cons.inj hescape).2

/-- A character is written as itself or as an escape sequence. -/
theorem escape_cases (c : UInt8) :
    (escape c = [c] ∧ c ≠ quote ∧ c ≠ backslash) ∨ ∃ e, escape c = [backslash, e] := by
  unfold escape
  split_ifs with hself
  · exact inr ⟨_, rfl⟩
  · exact inr ⟨_, rfl⟩
  · exact inr ⟨_, rfl⟩
  · exact inr ⟨_, rfl⟩
  · exact inr ⟨_, rfl⟩
  · exact inr ⟨_, rfl⟩
  · exact inl ⟨rfl, fun h => hself (inl h), fun h => hself (inr (inl h))⟩

/-- One character of a string. -/
theorem readChars_escape (hat : m.At p (escape c ++ rest)) :
    readChars (fuel + 1) m p = ((c :: ·) <$> readChars fuel) m (p + (escape c).length) := by
  rcases escape_cases c with ⟨hescape, hquote, hback⟩ | ⟨e, hescape⟩
  · rw [hescape] at hat ⊢
    rw [readChars, bind_of_ok (getByte_at hat), if_neg hquote,
      position_bind, Nat.add_sub_cancel, bind_of_ok (atIndex_at hat _), if_neg hback, pure_bind]
    rfl
  · rw [hescape] at hat
    rw [readChars, bind_of_ok (getByte_at hat), if_neg (by decide),
      position_bind, Nat.add_sub_cancel, bind_of_ok (atIndex_at hat _),
      if_pos rfl, bind_of_ok (readEscape_escape hescape hat.tail), hescape]
    rfl

theorem readChars_escapes : ∀ {s : Bytes} {fuel p : Nat}, s.length < fuel →
    m.At p (s.flatMap escape ++ [quote]) →
    readChars fuel m p = .ok (s, p + (s.flatMap escape ++ [quote]).length)
  | [], fuel + 1, p, _, hat => by
    rw [readChars, bind_of_ok (getByte_at hat), if_pos rfl]
    rfl
  | c :: s, fuel + 1, p, hfuel, hat => by
    rw [flatMap_cons, append_assoc] at hat ⊢
    have hrest := readChars_escapes (lt_of_succ_lt_succ hfuel) hat.right
    rw [readChars_escape hat, map_of_ok hrest]
    simp only [length_append, add_assoc]

theorem readString_readsIn (hfuel : m.size < fuel) (s : Bytes) :
    ReadsIn m (readString fuel) (writeString s) s := by
  intro p c _ hat
  have hat := hat.left
  have hsize := hat.le_size
  have hlen := length_le_flatMap escape_ne_nil s
  rw [writeString, append_assoc, singleton_append] at hat hsize ⊢
  rw [length_cons, length_append] at hsize
  rw [readString, position_bind, size_bind, if_neg (by omega),
    bind_of_ok (getByte_at hat), if_neg (by decide),
    readChars_escapes (by omega) hat.tail, length_cons, add_assoc, add_comm 1]

theorem readScalar_readsIn (hfuel : m.size < fuel) :
    (s : Scalar) → (v : s.Val) → ReadsIn m (readScalar fuel s) (writeScalar s v) v
  | .bool, v => readBool_readsIn m v
  | .int _, v => readNumber_readsIn m v
  | .string, v => readString_readsIn hfuel v

/-! ## Arrays -/

/-- The first character of a value. -/
def Opens (text : Bytes) : Prop :=
  ∃ c rest, text = c :: rest ∧ isWhitespace c = false ∧ c ≠ closeBracket

/-- A scalar begins with a character that is neither blank nor the beginning
of an object or the end of an array. -/
theorem toChars_head (i : Int) :
    ∃ c rest, toChars i = c :: rest ∧ isWhitespace c = false ∧ c ≠ closeBracket ∧ c ≠ openBrace := by
  unfold toChars
  by_cases hneg : i < 0
  · rw [if_pos hneg]
    exact ⟨_, _, rfl, by decide, by decide, by decide⟩
  · rw [if_neg hneg]
    obtain ⟨d, ds, hcons⟩ := exists_cons_of_ne_nil (toDec_ne_nil i.natAbs)
    have hdigit : isDigit d = true :=
      isDigit_of_mem_toDec (by rw [hcons]; exact mem_cons_self)
    have hall : ∀ d : UInt8, isDigit d = true →
        isWhitespace d = false ∧ d ≠ closeBracket ∧ d ≠ openBrace := by
      decide +kernel
    exact ⟨d, ds, hcons, hall d hdigit⟩

theorem writeScalar_head : (s : Scalar) → (v : s.Val) →
    ∃ c rest, writeScalar s v = c :: rest ∧ isWhitespace c = false ∧ c ≠ closeBracket ∧ c ≠ openBrace
  | .bool, true => ⟨_, _, rfl, by decide, by decide, by decide⟩
  | .bool, false => ⟨_, _, rfl, by decide, by decide, by decide⟩
  | .int _, v => toChars_head v.val
  | .string, _ => ⟨_, _, rfl, by decide, by decide, by decide⟩

theorem opens_writeScalar (s : Scalar) (v : s.Val) : Opens (writeScalar s v) := by
  obtain ⟨c, rest, htext, hwhite, hclose, -⟩ := writeScalar_head s v
  exact ⟨c, rest, htext, hwhite, hclose⟩

/-- The elements of an array begin as the first of them. -/
theorem Opens.intercalate {text : Bytes} (h : Opens text) (texts : List Bytes) :
    ∃ c rest, intercalate (str ", ") (text :: texts) ++ [closeBracket] = c :: rest ∧
      isWhitespace c = false ∧ c ≠ closeBracket := by
  obtain ⟨c, rest, rfl, hc⟩ := h
  cases texts with
  | nil => exact ⟨c, rest ++ [closeBracket], by rw [intercalate_singleton]; rfl, hc⟩
  | cons => exact ⟨c, _, by rw [intercalate_cons_cons]; rfl, hc⟩

/-- The elements of an array one behind the other. -/
theorem readItems_items {dec : α → β} : ∀ {as : List α} {fuel p : Nat}, as ≠ [] → as.length ≤ fuel →
      (∀ a ∈ as, ReadsIn m r (enc a) (dec a) ∧ Opens (enc a)) →
      m.At p (intercalate (str ", ") (as.map enc) ++ [closeBracket]) → readItems r fuel m p =
        .ok (as.map dec, p + (intercalate (str ", ") (as.map enc) ++ [closeBracket]).length)
  | [a], fuel + 1, p, _, _, hall, hat => by
    have hread := (hall a mem_cons_self).1
    simp only [map_cons, map_nil, intercalate_singleton] at hat ⊢
    have hbracket := hat.right
    rw [readItems, bind_of_ok (hread p _ (by decide) hat),
      bind_of_ok (consumeWhitespace_none (by decide) hbracket),
      bind_of_ok (getByte_at hbracket), if_pos rfl, length_append, add_assoc]
    rfl
  | a :: b :: as, fuel + 1, p, _, hfuel, hall, hat => by
    have hread := (hall a mem_cons_self).1
    simp only [map_cons, intercalate_cons_cons, append_assoc] at hat ⊢
    have hval : m.At p (enc a ++ [comma]) := by
      have hsplit : str ", " ++ (intercalate (str ", ") (enc b :: as.map enc) ++ [closeBracket])
          = [comma] ++ (str " " ++ (intercalate (str ", ") (enc b :: as.map enc) ++
            [closeBracket])) := rfl
      rw [hsplit, ← append_assoc] at hat
      exact hat.left
    have hcomma := hat.right
    have hblank : m.At (p + (enc a).length + 1)
        (str " " ++ (intercalate (str ", ") (enc b :: as.map enc) ++ [closeBracket])) :=
      hcomma.tail
    obtain ⟨c, _, hfirst, hwhite, -⟩ :=
      (hall b (mem_cons_of_mem a mem_cons_self)).2.intercalate (as.map enc)
    have hwhites : consumeWhitespace m (p + (enc a).length + 1) =
        .ok ((), p + (enc a).length + 1 + (str " ").length) :=
      consumeWhitespace_blank rfl hwhite (by rw [← hfirst]; exact hblank)
    have hrest := readItems_items (cons_ne_nil b as) (le_of_succ_le_succ hfuel)
      (fun c hc => hall c (mem_cons_of_mem a hc)) hblank.right
    simp only [map_cons] at hrest
    rw [readItems, bind_of_ok (hread p _ (by decide) hval),
      bind_of_ok (consumeWhitespace_none (by decide) hcomma),
      bind_of_ok (getByte_at hcomma), if_neg (by decide), if_neg (by decide),
      bind_of_ok hwhites, map_of_ok hrest]
    have hsep : (str ", ").length = 1 + (str " ").length := rfl
    simp only [length_append, add_assoc, hsep]

theorem length_le_intercalate (sep : Bytes) : ∀ {texts : List Bytes},
    (∀ text ∈ texts, text ≠ []) → texts.length ≤ (intercalate sep texts).length
  | [], _ => zero_le _
  | [a], h => by
    rw [intercalate_singleton]
    exact length_pos_iff.mpr (h a mem_cons_self)
  | a :: b :: l, h => by
    have hfirst := length_pos_iff.mpr (h a mem_cons_self)
    have hrest := length_le_intercalate sep fun c hc => h c (mem_cons_of_mem a hc)
    rw [intercalate_cons_cons, length_append, length_append, length_cons]
    omega

theorem readList_map (dec : α → β) {as : List α} {p : Nat} (hfuel : m.size < fuel)
    (hall : ∀ a ∈ as, ReadsIn m r (enc a) (dec a) ∧ Opens (enc a))
    (hat : m.At p (writeList (as.map enc))) :
    readList fuel r m p = .ok (as.map dec, p + (writeList (as.map enc)).length) := by
  have hsize := hat.le_size
  have hshape : writeList (as.map enc) =
      openBracket :: (intercalate (str ", ") (as.map enc) ++ [closeBracket]) := rfl
  rw [hshape] at hat hsize ⊢
  rw [readList, bind_of_ok (getByte_at hat), if_neg (by decide)]
  cases has : as with
  | nil =>
    rw [has] at hat
    have hbracket : m.At (p + 1) [closeBracket] := hat.tail
    rw [bind_of_ok (consumeWhitespace_none (by decide) hbracket),
      bind_of_ok (getByte_at hbracket), if_pos rfl]
    rfl
  | cons a as' =>
    rw [← has]
    have hne : as ≠ [] := by
      rw [has]
      exact cons_ne_nil a as'
    obtain ⟨c, rest, hfirst, hwhite, hclose⟩ :=
      (hall a (by rw [has]; exact mem_cons_self)).2.intercalate (as'.map enc)
    have hitems := hat.tail
    have hhead := hitems
    rw [has, map_cons, hfirst] at hhead
    have hlen : as.length ≤ fuel := by
      have hcnt := length_le_intercalate (str ", ") (show ∀ text ∈ as.map enc, text ≠ [] by
        intro text htext
        obtain ⟨b, hb, rfl⟩ := mem_map.mp htext
        obtain ⟨c, rest, hopens, -⟩ := (hall b hb).2
        rw [hopens]
        exact cons_ne_nil c rest)
      rw [length_map] at hcnt
      rw [length_cons, length_append] at hsize
      omega
    rw [bind_of_ok (consumeWhitespace_none hwhite hhead),
      bind_of_ok (getByte_at hhead), if_neg hclose, bind_of_ok advance_back,
      readItems_items hne hlen hall hitems, length_cons, add_assoc, add_comm 1]

theorem readList_writeList (enc : α → Bytes) {r : Get α} (as : List α) {p : Nat}
    (hfuel : m.size < fuel) (hall : ∀ a ∈ as, ReadsIn m r (enc a) a ∧ Opens (enc a))
    (hat : m.At p (writeList (as.map enc))) :
    readList fuel r m p = .ok (as, p + (writeList (as.map enc)).length) := by
  rw [readList_map id hfuel hall hat, map_id]

theorem assignArray_toList : {n : Option Nat} → (v : Seq n α) → (m : Memory) → (p : Nat) →
    assignArray n v.toList m p = .ok (v, p)
  | none, _, _, _ => rfl
  | some n, v, m, p => by
    have hlen : v.toList.length = n := v.property
    have hassign : assignArray (some n) v.toList = pure v := dif_pos hlen
    rw [hassign]
    rfl

theorem readArray_map (dec : α → β) {v : Seq n α} {p : Nat} (hfuel : m.size < fuel)
    (hall : ∀ a ∈ v.toList, ReadsIn m r (enc a) (dec a) ∧ Opens (enc a))
    (hat : m.At p (writeList (v.toList.map enc))) :
    readArray fuel n r m p = .ok (v.map dec, p + (writeList (v.toList.map enc)).length) := by
  rw [readArray, bind_of_ok (readList_map dec hfuel hall hat), ← Seq.toList_map, assignArray_toList]

theorem readArray_writeList {r : Get α} {v : Seq n α} {p : Nat} (hfuel : m.size < fuel)
    (hall : ∀ a ∈ v.toList, ReadsIn m r (enc a) a ∧ Opens (enc a))
    (hat : m.At p (writeList (v.toList.map enc))) :
    readArray fuel n r m p = .ok (v, p + (writeList (v.toList.map enc)).length) := by
  rw [readArray_map id hfuel hall hat, Seq.map_id]

/-! ## Field headers -/

/-- What stands in front of a field: whitespace, with at most one comma
between. -/
def Lead (lead : Bytes) : Prop :=
  Blank lead ∨ ∃ ws ws', Blank ws ∧ Blank ws' ∧ lead = ws ++ comma :: ws'

/-- A name that is read as it is written. -/
structure Plain (name : Bytes) : Prop where
  ne_nil : name ≠ []
  chars : ∀ c ∈ name, c ≠ quote ∧ c ≠ backslash
  length : name.length < 2 ^ 31

theorem namedField_ne_end (field : Field) (name : Bytes) (c : UInt8) (position : Nat) :
    (namedField field name c position).intDataType ≠ endMarkerId := by
  show (if c = openBrace then startMarkerId else otherId) ≠ endMarkerId
  split_ifs <;> decide

/-- A key is read up to its closing quote. -/
theorem readKey_key (hname : ∀ c ∈ name, c ≠ quote ∧ c ≠ backslash)
    (hat : m.At p (quote :: (name ++ quote :: rest))) : readKey m p =
      asString (p + 1) ((name.length : Int).bmod (2 ^ 32)) m (p + 1 + name.length + 1) := by
  obtain ⟨_, hdrop⟩ := hat.tail.drop
  have hspan : (m.data.drop (p + 1)).takeWhile (fun c => decide (c ≠ quote ∧ c ≠ backslash)) = name := by
    rw [hdrop, append_assoc, takeWhile_append_of_pos fun c hc => decide_eq_true (hname c hc),
      cons_append, takeWhile_cons_of_neg (by decide), append_nil]
  have hkey : ByteReader.span (ε := Exception) (fun c => c ≠ quote ∧ c ≠ backslash) m (p + 1)
      = .ok (name, p + 1) := by
    rw [ByteReader.span, hspan]
  rw [readKey, bind_of_ok (getByte_at hat), if_neg (not_not.mpr rfl),
    position_bind, bind_of_ok hkey, bind_of_ok (atIndex_at hat.tail.right _), if_neg (by decide),
    ByteReader.setPosition_bind]

theorem readKey_plain (hname : Plain name) (hat : m.At p (quote :: (name ++ quote :: rest))) :
    readKey m p = .ok (name, p + 1 + name.length + 1) := by
  have hlen := hname.length
  rw [readKey_key hname.chars hat, bmod_eq_of_le (by omega) (by omega), asString_at hat.tail]

theorem getNamed_plain (hname : Plain name) (hws : Blank ws) (hc : isWhitespace c = false)
    (hat : m.At p (quote :: (name ++ quote :: colon :: (ws ++ c :: rest)))) (check : ProtocolCheck)
    (info : DeserialiserInfo) (field : Field) : getNamed check info field m p =
      .ok ((info, namedField field name c (p + name.length + 3 + ws.length)),
        (namedField field name c (p + name.length + 3 + ws.length)).dataStartPosition) := by
  have hcolon : m.At (p + 1 + name.length + 1) (colon :: (ws ++ c :: rest)) := hat.tail.right.tail
  have hval := hcolon.tail.right
  have hpos : p + 1 + name.length + 1 + 1 + ws.length = p + name.length + 3 + ws.length := by
    omega
  rw [getNamed, bind_of_ok (readKey_plain hname hat), position_bind,
    reportIf, if_neg hname.ne_nil, pure_bind,
    bind_of_ok (consumeWhitespace_none (by decide) hcolon),
    bind_of_ok (getByte_at hcolon), position_bind, reportIf, if_neg (not_not.mpr rfl), pure_bind,
    bind_of_ok (consumeWhitespace_blank hws hc hcolon.tail), position_bind,
    bind_of_ok (atIndex_at hval _), hpos]
  rfl

/-- A header is found behind what leads to it, and a position is kept from
which only whitespace leads to it, so that it can be read again. -/
theorem seekHeader_lead (hlead : Lead lead)
    (hc : isWhitespace c = false) (hcomma : c ≠ comma) (hat : m.At p (lead ++ c :: rest)) :
    ∃ headerStart ws, Blank ws ∧ m.At headerStart (ws ++ c :: rest) ∧
      headerStart + ws.length = p + lead.length ∧
      seekHeader m p = .ok (headerStart, p + lead.length) := by
  rcases hlead with hblank | ⟨ws, ws', hws, hws', rfl⟩
  · refine ⟨p, lead, hblank, hat, rfl, ?_⟩
    rw [seekHeader, position_bind,
      bind_of_ok (consumeWhitespace_blank hblank hc hat), position_bind,
      bind_of_ok (atIndex_at hat.right _), if_neg hcomma]
    rfl
  · rw [append_assoc, cons_append] at hat
    have hlen : p + (ws ++ comma :: ws').length = p + ws.length + 1 + ws'.length := by
      rw [length_append, length_cons]
      omega
    have hback : m.At (p + ws.length + 1) (ws' ++ c :: rest) := hat.right.tail
    have hadvance : advance 1 m (p + ws.length) = .ok ((), p + ws.length + 1) := advance_nat rfl
    refine ⟨p + (ws ++ comma :: ws').length, [], blank_nil, ?_, rfl, ?_⟩
    · rw [hlen]
      exact hback.right
    · rw [hlen, seekHeader, position_bind,
        bind_of_ok (consumeWhitespace_blank hws (by decide) hat), position_bind,
        bind_of_ok (atIndex_at hat.right _), if_pos rfl, bind_of_ok hadvance,
        bind_of_ok (consumeWhitespace_blank hws' hc hback)]
      rfl

/-- The header of a field. -/
theorem getHeader_named (ws : Bytes) (hlead : Lead lead)
    (hname : Plain name) (hws : Blank ws) (hc : isWhitespace c = false)
    (hat : m.At p (lead ++ (quote :: (name ++ quote :: colon :: (ws ++ c :: rest))))) :
    ∃ headerStart blanks, Blank blanks ∧
      m.At headerStart (blanks ++ (quote :: (name ++ quote :: colon :: (ws ++ c :: rest)))) ∧
      headerStart + blanks.length = p + lead.length ∧
      ∀ check info field, getHeader check info field m p =
        .ok ((info, namedField { field with headerStart := headerStart } name c
          (p + lead.length + name.length + 3 + ws.length)),
          if c = openBrace then p + lead.length + name.length + 3 + ws.length + 1
          else p + lead.length + name.length + 3 + ws.length) := by
  obtain ⟨headerStart, blanks, hblanks, hstart, hlen, hseek⟩ :=
    seekHeader_lead hlead (by decide) (by decide) hat
  refine ⟨headerStart, blanks, hblanks, hstart, hlen, fun check info field => ?_⟩
  have hnamed := getNamed_plain hname hws hc hat.right check info
    { field with headerStart := headerStart }
  rw [getHeader, bind_of_ok hseek, position_bind,
    bind_of_ok (atIndex_at hat.right _), getHeaderAt, if_neg (by decide),
    if_neg (by decide), if_pos rfl, hnamed]
  rfl

/-- The beginning of an object. -/
theorem getHeader_start (hat : m.At p (openBrace :: rest)) (check : ProtocolCheck)
    (info : DeserialiserInfo) (field : Field) :
    ∃ headerStart, getHeader check info field m p =
      .ok ((info, markerField { field with headerStart := headerStart } startMarkerId (p + 1)), p) := by
  obtain ⟨headerStart, -, -, -, -, hseek⟩ := seekHeader_lead
    (inl blank_nil) (by decide) (by decide) hat
  rw [length_nil, add_zero] at hseek
  refine ⟨headerStart, ?_⟩
  rw [getHeader, bind_of_ok hseek, position_bind,
    bind_of_ok (atIndex_at hat _), getHeaderAt, if_pos rfl]
  rfl

/-- The end of an object. -/
theorem getHeader_end (hlead : Lead lead)
    (hat : m.At p (lead ++ closeBrace :: rest)) (check : ProtocolCheck) (info : DeserialiserInfo)
    (field : Field) :
    ∃ headerStart, getHeader check info field m p =
      .ok ((info, markerField { field with headerStart := headerStart } endMarkerId
        (p + lead.length + 1)), p + lead.length + 1) := by
  obtain ⟨headerStart, -, -, -, -, hseek⟩ := seekHeader_lead hlead (by decide) (by decide) hat
  refine ⟨headerStart, ?_⟩
  rw [getHeader, bind_of_ok hseek, position_bind,
    bind_of_ok (atIndex_at hat.right _), getHeaderAt, if_neg (by decide), if_pos rfl]
  rfl

/-! ## Objects -/

/-- The fields behind the first one, and the end of the object. -/
def tailText (items : List Bytes) : Bytes := items.flatMap (str ",\n" ++ ·) ++ str "\n\x7d"

/-- An object with these fields. -/
def objectText (items : List Bytes) : Bytes :=
  str "\x7b\n" ++ intercalate (str ",\n") items ++ str "\n\x7d"

theorem intercalate_append_end : ∀ (item : Bytes) (items : List Bytes),
    intercalate (str ",\n") (item :: items) ++ str "\n\x7d" = item ++ tailText items
  | item, [] => by
    rw [intercalate_singleton]
    rfl
  | item, item' :: items => by
    rw [intercalate_cons_cons, append_assoc, append_assoc,
      intercalate_append_end item' items, tailText, tailText, flatMap_cons]
    simp only [append_assoc]

/-- Taking back the separator behind the last field. -/
theorem dropSeparator_fields (before : Bytes) : ∀ {items : List Bytes}, items ≠ [] →
    dropSeparator (before ++ items.flatMap (· ++ str ",\n")) =
      before ++ intercalate (str ",\n") items := by
  have hlast : ∀ (pre : Bytes), dropSeparator (pre ++ str ",\n") = pre := by
    intro pre
    have hlen : (pre ++ str ",\n").length - 2 = pre.length := by
      rw [length_append]
      exact Nat.add_sub_cancel _ 2
    rw [dropSeparator, hlen, take_left]
  intro items hne
  induction items generalizing before with
  | nil => exact absurd rfl hne
  | cons item items ih =>
    cases items with
    | nil =>
      rw [flatMap_singleton, intercalate_singleton, ← append_assoc, hlast]
    | cons item' items =>
      rw [flatMap_cons, ← append_assoc, ih _ (cons_ne_nil item' items), intercalate_cons_cons]
      simp only [append_assoc]

/-- The reader of an object stands in front of these fields and the end,
which is at `stop`. -/
def Ahead (m : Memory) (p : Nat) : List Bytes → Nat → Prop
  | [], stop => ∃ ws, Blank ws ∧ m.At p (ws ++ [closeBrace]) ∧ stop = p + ws.length + 1
  | item :: items, stop => ∃ lead, Lead lead ∧ m.At p (lead ++ (item ++ tailText items)) ∧
      stop = p + lead.length + item.length + (tailText items).length

/-- Behind a field, where only whitespace may be left of it. -/
theorem ahead_tail {trail : Bytes} (htrail : Blank trail) (hat : m.At p (trail ++ tailText items)) :
    Ahead m p items (p + trail.length + (tailText items).length) := by
  cases items with
  | nil =>
    refine ⟨trail ++ str "\n", htrail.append rfl, ?_, ?_⟩
    · rw [append_assoc]
      exact hat
    · rw [length_append]
      rfl
  | cons item items =>
    refine ⟨trail ++ str ",\n", inr ⟨trail, str "\n", htrail, rfl, rfl⟩, ?_, ?_⟩
    · rw [tailText, flatMap_cons] at hat
      rw [tailText]
      simp only [append_assoc] at hat ⊢
      exact hat
    · rw [tailText, tailText, flatMap_cons]
      simp only [length_append]
      omega

/-- Behind a field of which nothing is left. -/
theorem ahead_next (hat : m.At p (tailText items)) :
    Ahead m p items (p + (tailText items).length) := by
  have htail := ahead_tail blank_nil hat
  rwa [length_nil, add_zero] at htail

/-- Behind the opening brace of an object. -/
theorem ahead_object (hat : m.At p (objectText items)) :
    Ahead m (p + 1) items (p + (objectText items).length) := by
  have hinside : m.At (p + 1) (str "\n" ++ (intercalate (str ",\n") items ++ str "\n\x7d")) := by
    rw [objectText, append_assoc] at hat
    exact hat.tail
  cases items with
  | nil =>
    exact ⟨str "\n\n", rfl, hinside, rfl⟩
  | cons item items =>
    rw [objectText, append_assoc]
    rw [intercalate_append_end] at hinside ⊢
    refine ⟨str "\n", inl rfl, hinside, ?_⟩
    simp only [length_append, add_assoc]
    have hopen : (str "\x7b\n").length = 1 + (str "\n").length := rfl
    rw [hopen, add_assoc]

theorem Ahead.stop_le_size (h : Ahead m p items stop) : p < stop ∧ stop ≤ m.size := by
  cases items with
  | nil =>
    obtain ⟨_, -, hat, rfl⟩ := h
    have hsize := hat.le_size
    rw [length_append, length_singleton] at hsize
    omega
  | cons item items =>
    obtain ⟨_, -, hat, rfl⟩ := h
    have hsize := hat.le_size
    have hend : 2 ≤ (tailText items).length := by
      rw [tailText, length_append]
      exact le_add_left 2 _
    simp only [length_append] at hsize
    omega

/-- A field of an object. -/
def fieldText (name data : Bytes) : Bytes := writeKey name ++ data

theorem fieldText_append (name data rest : Bytes) :
    fieldText name data ++ rest = quote :: (name ++ quote :: colon :: (str " " ++ (data ++ rest))) := by
  have hkey : writeKey name = quote :: (name ++ quote :: colon :: str " ") := rfl
  rw [fieldText, hkey]
  simp only [cons_append, append_assoc]

/-- The header of the next field. -/
theorem Ahead.header {data : Bytes}
    (h : Ahead m p (fieldText name data :: items) stop) (hname : Plain name)
    (hdata : data = c :: rest) (hc : isWhitespace c = false) :
    ∃ headerStart d, Ahead m headerStart (fieldText name data :: items) stop ∧
      m.At d (data ++ tailText items) ∧ stop = d + data.length + (tailText items).length ∧
      ∀ check info field, getHeader check info field m p =
        .ok ((info, namedField { field with headerStart := headerStart } name c d),
          if c = openBrace then d + 1 else d) := by
  obtain ⟨lead, hlead, hat, hstop⟩ := h
  have htext := hat
  rw [fieldText_append, hdata] at htext
  obtain ⟨headerStart, blanks, hblanks, hstart, hlen, hhdr⟩ :=
    getHeader_named (str " ") hlead hname rfl hc htext
  have hkey : (writeKey name).length = name.length + 4 := by
    have hshape : writeKey name = quote :: (name ++ quote :: colon :: str " ") := rfl
    rw [hshape, length_cons, length_append]
    rfl
  have hpos : p + lead.length + name.length + 3 + (str " ").length
      = p + lead.length + (writeKey name).length := by
    rw [hkey]
    rfl
  refine ⟨headerStart, p + lead.length + (writeKey name).length,
    ⟨blanks, inl hblanks, ?_, ?_⟩, ?_, ?_, fun check info field => ?_⟩
  · rw [fieldText_append, hdata]
    exact hstart
  · rw [hstop, hlen]
  · rw [fieldText, append_assoc] at hat
    exact hat.right.right
  · rw [hstop, fieldText, length_append]
    omega
  · rw [hhdr, hpos]

/-- The end of the object. -/
theorem Ahead.end (h : Ahead m p [] stop) (check : ProtocolCheck)
    (info : DeserialiserInfo) (field : Field) :
    ∃ field', getHeader check info field m p = .ok ((info, field'), stop) ∧
      field'.intDataType = endMarkerId ∧ field'.dataStartPosition = stop := by
  obtain ⟨_, hws, hat, rfl⟩ := h
  obtain ⟨headerStart, hhdr⟩ := getHeader_end (inl hws) hat check info field
  exact ⟨_, hhdr, rfl, rfl⟩

/-! ## Plain types -/

/-- What the writer leaves behind a value that is an object. -/
def trail : ValueTy → Bytes
  | .multiArray _ _ => str "\n"
  | .map _ _ _ => str "\n"
  | _ => []

/-- The text of a plain value up to where its reader stops. -/
def valueText (abi : Abi) : (t : ValueTy) → t.Val → Bytes
  | .scalar s, v => writeScalar s v
  | .array _ s, v => writeList (v.toList.map (writeScalar s))
  | .set s, v => writeList (v.keys.map (writeScalar s))
  | .multiArray s _, v =>
    objectText [
      fieldText (str "dims")
        (writeList (v.val.dims.map fun d => writeScalar (.int .w32) (toWire d.toNat))),
      fieldText (str "values") (writeList (v.val.elements.map (writeScalar s)))]
  | .map kind .string value, v =>
    objectText ((abi.order kind v).map fun e =>
      fieldText e.1 (valueText abi value e.2 ++ trail value))
  | .map _ _ _, _ => []

/-- The maps in a value can be read: they have entries, and keys that are
read as they are written. -/
def Readable : (t : ValueTy) → t.Val → Prop
  | .map _ .string value, v =>
    v.entries ≠ [] ∧ ∀ e ∈ v.entries, Plain e.1 ∧ Readable value e.2
  | .map _ _ _, _ => False
  | _, _ => True

variable (abi : Abi)

/-- What is left when a value is read into an object that holds `old`. A map
gets the keys, but not the values. -/
def reread : (t : ValueTy) → (v old : t.Val) → t.Val
  | .scalar _, v, _ => v
  | .array _ _, v, _ => v
  | .set _, v, _ => v
  | .multiArray _ _, v, _ => v
  | .map kind _ value, v, old =>
    (abi.order kind v).foldl (fun m e => m.tryEmplace e.1 value.default) old

theorem blank_trail (t : ValueTy) : Blank (trail t) := by
  cases t <;> rfl

theorem writeObject_fields (items : List Bytes) (hne : items ≠ []) :
    writeObject (items.flatMap (· ++ str ",\n")) = objectText items ++ str "\n" := by
  rw [writeObject, dropSeparator_fields _ hne, objectText, append_assoc, append_assoc, append_assoc]
  rfl

/-- Only maps without entries and maps without a serialiser are written
otherwise. -/
theorem put_eq : (t : ValueTy) → {v : t.Val} → Readable t v →
    put abi t v = .ok (valueText abi t v ++ trail t) := by
  intro t
  induction t with
  | scalar s | array n s | set s => exact fun _ => congrArg Except.ok (append_nil _).symm
  | multiArray s n =>
    intro v _
    have hfields := writeObject_fields [
      fieldText (str "dims")
        (writeList (v.val.dims.map fun d => writeScalar (.int .w32) (toWire d.toNat))),
      fieldText (str "values") (writeList (v.val.elements.map (writeScalar s)))]
      (cons_ne_nil _ _)
    rw [flatMap_cons, flatMap_singleton] at hfields
    exact congrArg Except.ok hfields
  | map kind key value ih =>
    intro v hrd
    cases key with
    | bool => exact hrd.elim
    | int w => exact hrd.elim
    | string =>
      have hmem : ∀ e ∈ abi.order kind v, e ∈ v.entries := fun e he =>
        (abi.order_perm kind v).mem_iff.mp he
      have hfields : ((abi.order kind v).mapM fun e => writeField e.1 <$> put abi value e.2) =
          .ok ((abi.order kind v).map fun e =>
            writeField e.1 (valueText abi value e.2 ++ trail value)) :=
        mapM_eq_ok_map fun e he => by rw [ih (hrd.2 e (hmem e he)).2]; rfl
      have hne : ((abi.order kind v).map fun e =>
          fieldText e.1 (valueText abi value e.2 ++ trail value)) ≠ [] := by
        rw [Ne, map_eq_nil_iff]
        intro hnil
        have hperm := abi.order_perm kind v
        rw [hnil] at hperm
        exact hrd.1 hperm.nil_eq.symm
      have hflat : ((abi.order kind v).map fun e =>
          writeField e.1 (valueText abi value e.2 ++ trail value)).flatten =
          ((abi.order kind v).map fun e =>
            fieldText e.1 (valueText abi value e.2 ++ trail value)).flatMap (· ++ str ",\n") := by
        rw [flatMap_map]
        rfl
      rw [put, hfields, ok_bind, hflat, writeObject_fields _ hne]
      rfl

theorem otherId_ne : otherId ≠ startMarkerId := by decide

/-- Only what is an object on the wire begins with a brace. -/
theorem valueText_head : (t : ValueTy) → {v : t.Val} → Readable t v →
    ∃ c rest, valueText abi t v = c :: rest ∧ isWhitespace c = false ∧
      (c = openBrace ↔ typeId t = startMarkerId)
  | .scalar s, v, _ => by
    obtain ⟨c, rest, htext, hwhite, -, hbrace⟩ := writeScalar_head s v
    exact ⟨c, rest, htext, hwhite, fun h => absurd h hbrace, fun h => absurd h otherId_ne⟩
  | .array _ _, _, _ | .set _, _, _ => ⟨openBracket, _, rfl, by decide, fun h => absurd h (by decide),
      fun h => absurd h otherId_ne⟩
  | .multiArray _ _, _, _ | .map _ .string _, _, _ => ⟨openBrace, _, rfl, by decide, fun _ => rfl, fun _ => rfl⟩

theorem typeId_readable : (t : ValueTy) → {v : t.Val} → Readable t v →
    typeId t = startMarkerId ∨ typeId t = otherId
  | .scalar _, _, _ => inr rfl
  | .array _ _, _, _ => inr rfl
  | .set _, _, _ => inr rfl
  | .multiArray _ _, _, _ => inl rfl
  | .map _ .string _, _, _ => inl rfl

/-- What follows a value is no digit. -/
theorem delimiter_head (hws : Blank ws) (items : List Bytes) :
    ∃ c rest, ws ++ tailText items = c :: rest ∧ isDigit c = false := by
  have hblank : ∀ c : UInt8, isWhitespace c = true → isDigit c = false := by
    decide +kernel
  cases ws with
  | nil =>
    cases items with
    | nil => exact ⟨_, _, rfl, by decide⟩
    | cons item items => exact ⟨comma, _, rfl, by decide⟩
  | cons c ws => exact ⟨c, _, rfl, hblank c (all_eq_true.mp hws c mem_cons_self)⟩

/-- A text that ends in front of a delimiter. -/
theorem at_delimiter {text : Bytes} (hws : Blank ws) (hat : m.At p (text ++ ws ++ tailText items)) :
    ∃ c, isDigit c = false ∧ m.At p (text ++ [c]) := by
  obtain ⟨c, _, hhead, hdigit⟩ := delimiter_head hws items
  rw [append_assoc, hhead, ← singleton_append, ← append_assoc] at hat
  exact ⟨c, hdigit, hat.left⟩

theorem plain_dims : Plain (str "dims") := by
  refine ⟨by decide, ?_, ?_⟩ <;> decide +kernel

theorem plain_values : Plain (str "values") := by
  refine ⟨by decide, ?_, ?_⟩ <;> decide +kernel

/-- An array of scalars as a field of an object. -/
theorem Ahead.readArray (hfuel : m.size < fuel) {s : Scalar} {v : Seq n s.Val} (hname : Plain name)
    (h : Ahead m p (fieldText name (writeList (v.toList.map (writeScalar s))) :: items) stop)
    (field : Field) : ∃ field' d q, getHeader .always {} field m p = .ok (({}, field'), d) ∧
      field'.intDataType = otherId ∧ field'.fieldName = name ∧
      readArray fuel n (readScalar fuel s) m d = .ok (v, q) ∧ Ahead m q items stop := by
  obtain ⟨headerStart, d, -, hat, hstop, hhdr⟩ :=
    h.header hname rfl (by decide)
  have hhdr := hhdr .always {} field
  rw [if_neg (by decide)] at hhdr
  have hread := readArray_writeList hfuel
    (fun a _ => ⟨readScalar_readsIn hfuel s a, opens_writeScalar s a⟩) hat.left
  refine ⟨_, d, _, hhdr, rfl, rfl, hread, ?_⟩
  have hnext := ahead_next hat.right
  rw [← hstop] at hnext
  exact hnext

/-- The dimensions and the elements of a `MultiArray`. -/
theorem getMultiArray_value (hfuel : m.size < fuel) {s : Scalar} {n : Nat}
    (v : RowMajor s.Val n) (field : Field)
    (hahead : Ahead m p [
      fieldText (str "dims")
        (writeList (v.val.dims.map fun d => writeScalar (.int .w32) (toWire d.toNat))),
      fieldText (str "values") (writeList (v.val.elements.map (writeScalar s)))] stop) :
    getMultiArray fuel s n field m p = .ok (v, stop) := by
  have hwire : (v.val.dims.map fun d => writeScalar (.int .w32) (toWire d.toNat)) =
      (Seq.toList (n := some n) (v.dims.map fun d => toWire d.toNat)).map
        (writeScalar (.int .w32)) := by
    have hvector : Seq.toList (n := some n) v.dims = v.val.dims := rfl
    have hmap := Seq.toList_map (n := some n) (fun d : UInt32 => toWire d.toNat) v.dims
    rw [hvector] at hmap
    refine Eq.trans ?_ (congrArg (map (writeScalar (.int .w32))) hmap).symm
    rw [map_map, Function.comp_def]
  have hmk : RowMajor.mk v.val.elements
      (List.Vector.map ofWire (v.dims.map fun d => toWire d.toNat)) = v := by
    have hback : (v.dims.map fun d => toWire d.toNat).map ofWire = v.dims := by
      refine Subtype.ext ?_
      show (v.val.dims.map fun d => toWire d.toNat).map ofWire = v.val.dims
      rw [map_map]
      exact map_id'' ofWire_toWire _
    rw [hback, RowMajor.mk_dims]
  rw [hwire] at hahead
  obtain ⟨dimsField, d, q, hhdr, hid, hname, hdims, hahead⟩ :=
    hahead.readArray hfuel plain_dims field
  obtain ⟨valuesField, _, _, hhdr', hid', hname', hvals, hahead⟩ :=
    Ahead.readArray (n := none) hfuel plain_values hahead dimsField
  obtain ⟨_, hend, hendId, -⟩ := hahead.end .always {} valuesField
  rw [getMultiArray, bind_of_ok hhdr]
  dsimp only
  rw [if_neg (by rintro (h | h); exacts [h hid, h hname])]
  refine (bind_of_ok hdims _).trans ?_
  rw [bind_of_ok hhdr']
  rw [if_neg (by rintro (h | h); exacts [h hid', h hname'])]
  refine (bind_of_ok hvals _).trans ?_
  rw [bind_of_ok hend]
  rw [if_neg (not_not.mpr hendId), hmk]
  rfl

/-- The entries of a map: each key is there behind them, and what is read for
it is dropped. -/
theorem getEntries_entries {V : Type} {d : V} {read : Field → V → Get V} {enc : Bytes × V → Bytes} (hws : Blank ws) (object : Bool) :
    ∀ {entries : List (Bytes × V)} {fuel p stop : Nat} (value : SortedMap Bytes V) (field : Field),
      (∀ e ∈ entries, Plain e.1) →
      (∀ e ∈ entries, ∃ c rest, enc e = c :: rest ∧ isWhitespace c = false ∧
        (c = openBrace ↔ object = true)) →
      (∀ e ∈ entries, ∀ (field : Field) (old : V) (p : Nat) (c : UInt8), isDigit c = false →
        m.At p (enc e ++ [c]) → ∃ w, read field old m (if object then p + 1 else p) =
          .ok (w, p + (enc e).length)) → entries.length < fuel →
      Ahead m p (entries.map fun e => fieldText e.1 (enc e ++ ws)) stop →
      getEntries d read fuel value field m p =
        .ok (entries.foldl (fun value e => value.tryEmplace e.1 d) value, stop)
  | [], fuel + 1, p, stop, value, field, _, _, _, _, hahead => by
    obtain ⟨_, hend, hendId, -⟩ := hahead.end .always {} field
    rw [getEntries, bind_of_ok hend]
    dsimp only
    rw [if_pos hendId]
    rfl
  | e :: entries, fuel + 1, p, stop, value, field, hkeys, hheads, hread, hfuel, hahead => by
    have hkey := hkeys e mem_cons_self
    obtain ⟨c, rest, hhead, hwhite, hbrace⟩ := hheads e mem_cons_self
    obtain ⟨headerStart, at', -, hat, hstop, hhdr⟩ :=
      hahead.header hkey (by rw [hhead]; rfl) hwhite
    have hhdr := hhdr .always {} field
    have hpos : (if c = openBrace then at' + 1 else at') =
        if object = true then at' + 1 else at' := if_congr hbrace rfl rfl
    rw [hpos] at hhdr
    obtain ⟨delimiter, hdigit, hval⟩ := at_delimiter hws hat
    have hnext := ahead_tail hws (by rw [append_assoc] at hat; exact hat.right)
    have hend : at' + (enc e).length + ws.length +
        (tailText (entries.map fun e => fieldText e.1 (enc e ++ ws))).length = stop := by
      rw [hstop, length_append]
      omega
    rw [hend] at hnext
    rw [getEntries, bind_of_ok hhdr]
    dsimp only
    obtain ⟨w, hw⟩ := hread e mem_cons_self
      (namedField { field with headerStart := headerStart } e.1 c at')
      (((value.tryEmplace e.1 d).find? e.1).getD d) at' delimiter hdigit hval
    rw [if_neg (namedField_ne_end _ _ _ _)]
    refine (bind_of_ok hw _).trans ?_
    exact getEntries_entries hws object _ _ (fun e' he' => hkeys e' (mem_cons_of_mem e he'))
      (fun e' he' => hheads e' (mem_cons_of_mem e he'))
      (fun e' he' => hread e' (mem_cons_of_mem e he')) (lt_of_succ_lt_succ hfuel) hnext

/-- Values are read back, up to the values in maps. -/
theorem get_value (hfuel : m.size < fuel) (t : ValueTy) :
    ∀ {v : t.Val} (old : t.Val) (field : Field) {p : Nat} {c : UInt8}, Readable t v →
      isDigit c = false → m.At p (valueText abi t v ++ [c]) →
      get fuel t field old m (if typeId t = startMarkerId then p + 1 else p) =
        .ok (reread abi t v old, p + (valueText abi t v).length) := by
  induction t with
  | scalar s =>
    intro v old field p c _ hdigit hat
    exact readScalar_readsIn hfuel s v p c hdigit hat
  | array n s =>
    intro v old field p c _ _ hat
    exact readArray_writeList hfuel
      (fun a _ => ⟨readScalar_readsIn hfuel s a, opens_writeScalar s a⟩) hat.left
  | set s =>
    intro v old field p c _ _ hat
    have hitems := readList_writeList (writeScalar s) v.keys hfuel
      (fun a _ => ⟨readScalar_readsIn hfuel s a, opens_writeScalar s a⟩) hat.left
    show get fuel (.set s) field old m p = _
    rw [get, bind_of_ok hitems, SortedMap.ofEntries_keys]
    rfl
  | multiArray s n =>
    intro v old field p c _ _ hat
    exact getMultiArray_value hfuel v _ (ahead_object hat.left)
  | map kind key value ih =>
    intro v old field p c hrd _ hat
    cases key with
    | bool => exact hrd.elim
    | int w => exact hrd.elim
    | string =>
      have hmem : ∀ e ∈ abi.order kind v, Plain e.1 ∧ Readable value e.2 := fun e he =>
        hrd.2 e ((abi.order_perm kind v).mem_iff.mp he)
      have hsize := hat.left.le_size
      have hcnt : (abi.order kind v).length ≤ (valueText abi (.map kind .string value) v).length := by
        rw [valueText, objectText, length_append, length_append]
        have hitems := length_le_intercalate (str ",\n") (show ∀ text ∈ (abi.order kind v).map
          (fun e => fieldText e.1 (valueText abi value e.2 ++ trail value)), text ≠ [] by
            intro text htext
            obtain ⟨e, -, rfl⟩ := mem_map.mp htext
            exact cons_ne_nil _ _)
        rw [length_map] at hitems
        omega
      show getEntries value.default (get fuel value) fuel old (objectField field (typeId value)) m
        (p + 1) = _
      refine getEntries_entries (blank_trail value) (decide (typeId value = startMarkerId)) old _
        (fun e he => (hmem e he).1) ?_ ?_ (by omega) (ahead_object hat.left)
      · intro e he
        obtain ⟨c, rest, hhead, hwhite, hbrace⟩ := valueText_head abi value (hmem e he).2
        exact ⟨c, rest, hhead, hwhite, hbrace.trans decide_eq_true_iff.symm⟩
      · intro e he field old p c hdigit hval
        have hget := ih old field (hmem e he).2 hdigit hval
        refine ⟨reread abi value e.2 old, ?_⟩
        rw [if_congr decide_eq_true_iff rfl rfl]
        exact hget

end OpenCmw.Io.Json
