import OpenCmw.QueryText

/-!
# Percent coding, as the source writes and reads it

`URI::encode` writes to a stream and relies on the state of the stream: the
fill character, the base, the case of the digits and the width of the next
number. `OStream` is as much of `std::ostringstream` as that takes;
`OStream.encode` is the loop, and it writes what `encode` says
(`OStream.encode_eq`).

`URI<STRICT>::decode` looks at the character after a '%' before it knows
whether there is one. `decodeReading` is its loop with the positions it
reads and with the byte that stands in memory behind the text. Of the two
digits of an escape only the first is checked, so the loop accepts some texts
that are not well formed, and at a '%' that ends the text it reads one byte
too far (`strict_decode_iff`).
-/

namespace OpenCmw

open List

/-! ## Writing -/

/-- An output stream and its formatting state. -/
structure OStream where
  out : Bytes := []
  fill : UInt8 := chr ' '
  hex : Bool := false
  uppercase : Bool := false
  width : Nat := 0

namespace OStream

/-- What is written is filled up to the width from the left, and the width is
then 0. -/
def put (st : OStream) (text : Bytes) : OStream :=
  { st with out := st.out ++ replicate (st.width - text.length) st.fill ++ text, width := 0 }

/-- The text of a number in the base of the stream. -/
def number (st : OStream) (n : Nat) : Bytes :=
  (Nat.toDigits (if st.hex then 16 else 10) n).map fun c => chr (if st.uppercase then c.toUpper else c)

/-- One round of the loop of `URI::encode`. -/
def encodeChar (st : OStream) (c : UInt8) : OStream :=
  if isUnreserved c then st.put [c]
  else
    let st := { st with uppercase := true }
    let st := st.put [chr '%']
    let st := { st with width := 2 }
    let st := st.put (st.number c.toNat)
    { st with uppercase := false }

/-- `URI::encode`. -/
def encode (source : Bytes) : Bytes :=
  (source.foldl encodeChar { fill := chr '0', hex := true }).out

theorem encodeChar_eq (out : Bytes) (c : UInt8) :
    encodeChar { out, fill := chr '0', hex := true } c =
      { out := out ++ OpenCmw.encode [c], fill := chr '0', hex := true } := by
  have hdigits : ∀ c : UInt8, replicate (2 - ((Nat.toDigits 16 c.toNat).map
        fun d => chr d.toUpper).length) (chr '0') ++ (Nat.toDigits 16 c.toNat).map
        (fun d => chr d.toUpper) = [hexChar (c / 16), hexChar (c % 16)] :=
    forall_uint8 (by decide +kernel)
  unfold encodeChar
  by_cases hc : isUnreserved c = true
  · rw [if_pos hc, encode_cons_of_isUnreserved hc, encode_nil]
    simp [put]
  · rw [if_neg hc, encode_cons_of_not_isUnreserved hc, encode_nil, ← hdigits c]
    simp [put, number]

/-- The stream ends up with the coded text. -/
theorem encode_eq (source : Bytes) : encode source = OpenCmw.encode source := by
  have hloop : ∀ (source out : Bytes),
      source.foldl encodeChar { out, fill := chr '0', hex := true } =
        { out := out ++ OpenCmw.encode source, fill := chr '0', hex := true } := by
    intro source
    induction source with
    | nil =>
      intro out
      rw [encode_nil, append_nil]
      rfl
    | cons c source ih =>
      intro out
      have hcons : OpenCmw.encode (c :: source) = OpenCmw.encode [c] ++ OpenCmw.encode source := by
        rw [OpenCmw.encode, OpenCmw.encode, OpenCmw.encode, flatMap_cons, flatMap_cons,
          flatMap_nil, append_nil]
      rw [foldl_cons, encodeChar_eq, ih, hcons, append_assoc]
  rw [encode, hloop source []]
  rfl

end OStream

/-- An upper-case hexadecimal digit. -/
def isUpperHex (c : UInt8) : Bool := isDigit c || (chr 'A' ≤ c && c ≤ chr 'F')

/-- Unreserved characters, and escapes of two upper-case digits. -/
inductive PercentEncoded : Bytes → Prop
  | nil : PercentEncoded []
  | char {c : UInt8} {s : Bytes} (hc : isUnreserved c = true) (hs : PercentEncoded s) :
      PercentEncoded (c :: s)
  | escape {a b : UInt8} {s : Bytes} (ha : isUpperHex a = true) (hb : isUpperHex b = true)
      (hs : PercentEncoded s) : PercentEncoded (chr '%' :: a :: b :: s)

theorem percentEncoded_encode (s : Bytes) : PercentEncoded (encode s) := by
  have hhex : ∀ c, isUpperHex (hexChar (c / 16)) = true ∧ isUpperHex (hexChar (c % 16)) = true :=
    forall_uint8 (by decide +kernel)
  induction s with
  | nil => exact .nil
  | cons c s ih =>
    by_cases hc : isUnreserved c = true
    · rw [encode_cons_of_isUnreserved hc]
      exact .char hc ih
    · rw [encode_cons_of_not_isUnreserved hc]
      exact .escape (hhex c).1 (hhex c).2 ih

/-- What the stream writes is well formed and is read back, by both kinds of
URIs. -/
theorem percent_coding_round_trip (s : Bytes) :
    PercentEncoded (OStream.encode s) ∧ decode .strict (OStream.encode s) = .ok s ∧
      decode .relaxed (OStream.encode s) = .ok s := by
  rw [OStream.encode_eq]
  exact ⟨percentEncoded_encode s, decode_encode .strict s, decode_encode .relaxed s⟩

/-! ## Reading -/

/-- `std::isxdigit`. -/
def isHex (c : UInt8) : Bool := (hexDigit c).isSome

/-- The loop of `URI<STRICT>::decode` at position `i` of `s`, with the
positions it reads: the character, at a '%' the one after it, and then what
`substr` copies. `after` is the byte in memory behind `s`. -/
def decodeReading (after : UInt8) (s : Bytes) (i : Nat) : Bytes → List Nat × Except UriError Bytes
  | [] => ([], .ok [])
  | c :: cs =>
    if c == chr '%' then
      if !isHex (cs.head?.getD after) then ([i, i + 1], .error (.erroneousEscape (i + 1) s))
      else
        let reads := i :: (i + 1) :: List.range' (i + 1) (cs.take 2).length
        match hexByte (cs.take 2) with
        | none => (reads, .error .indeterminate)
        | some d =>
          let r := decodeReading after s (i + 3) (cs.drop 2)
          (reads ++ r.1, r.2.map (d :: ·))
    else
      let r := decodeReading after s (i + 1) cs
      (i :: r.1, r.2.map (c :: ·))
  termination_by rest => rest.length
  decreasing_by all_goals simp only [length_drop, length_cons]; omega

/-- What follows each '%' that the loop reaches. -/
def escapes : Bytes → List Bytes
  | [] => []
  | c :: cs => if c == chr '%' then cs :: escapes (cs.drop 2) else escapes cs
  termination_by rest => rest.length
  decreasing_by all_goals simp only [length_drop, length_cons]; omega

variable (rest : Bytes)

/-- Two hexadecimal digits follow. -/
def Escape : Prop :=
  ∃ a b t, rest = a :: b :: t ∧ isHex a = true ∧ isHex b = true

/-- Something follows that is no hexadecimal digit. -/
def BadDigit : Prop := ∃ a t, rest = a :: t ∧ isHex a = false

/-- A hexadecimal digit follows. -/
def FirstDigit : Prop := ∃ a t, rest = a :: t ∧ isHex a = true

def WellFormed (s : Bytes) : Prop := ∀ rest ∈ escapes s, Escape rest

theorem Escape.firstDigit {rest : Bytes} (h : Escape rest) : FirstDigit rest := by
  obtain ⟨a, b, t, rfl, ha, -⟩ := h
  exact ⟨a, b :: t, rfl, ha⟩

theorem firstDigit_or : rest = [] ∨ FirstDigit rest ∨ BadDigit rest := by
  cases rest with
  | nil => exact Or.inl rfl
  | cons a t =>
    cases ha : isHex a with
    | true => exact Or.inr (Or.inl ⟨a, t, rfl, ha⟩)
    | false => exact Or.inr (Or.inr ⟨a, t, rfl, ha⟩)

theorem BadDigit.not_firstDigit {rest : Bytes} (h : BadDigit rest) : ¬FirstDigit rest := by
  rintro ⟨a, t, rfl, ha⟩
  obtain ⟨_, _, heq, ha'⟩ := h
  obtain ⟨rfl, -⟩ := cons.inj heq
  rw [ha] at ha'
  cases ha'

/-! ### One round -/

theorem escapes_percent (cs : Bytes) : escapes (chr '%' :: cs) = cs :: escapes (cs.drop 2) := by
  rw [escapes, if_pos (by simp)]

theorem escapes_other {c : UInt8} (hc : c ≠ chr '%') (cs : Bytes) :
    escapes (c :: cs) = escapes cs := by
  rw [escapes, if_neg (by simpa using hc)]

section
variable (after : UInt8) (s : Bytes) (i : Nat)

theorem decodeReading_other {c : UInt8} (hc : c ≠ chr '%') (cs : Bytes) :
    decodeReading after s i (c :: cs) = (i :: (decodeReading after s (i + 1) cs).1,
        (decodeReading after s (i + 1) cs).2.map (c :: ·)) := by
  rw [decodeReading, if_neg (by simpa using hc)]

theorem decodeReading_bad {cs : Bytes} (h : BadDigit cs) : decodeReading after s i (chr '%' :: cs) =
      ([i, i + 1], .error (.erroneousEscape (i + 1) s)) := by
  obtain ⟨a, t, rfl, ha⟩ := h
  rw [decodeReading, if_pos (by simp), if_pos (by simp [ha])]

/-- A digit follows: one byte is written, whatever comes second. -/
theorem decodeReading_digit {cs : Bytes} (h : FirstDigit cs) : ∃ d,
    decodeReading after s i (chr '%' :: cs) =
      (i :: (i + 1) :: List.range' (i + 1) (cs.take 2).length ++
          (decodeReading after s (i + 3) (cs.drop 2)).1,
        (decodeReading after s (i + 3) (cs.drop 2)).2.map (d :: ·)) := by
  obtain ⟨a, t, rfl, ha⟩ := h
  have hbyte : ∃ d, hexByte ((a :: t).take 2) = some d := by
    have hnot : ∀ a, isHex a = true → isSpace a = false ∧ (a == chr '+') = false ∧
        (a == chr '-') = false := forall_uint8 (by decide +kernel)
    obtain ⟨hspace, hplus, hminus⟩ := hnot a ha
    obtain ⟨hi, hhi⟩ := Option.isSome_iff_exists.mp ha
    rw [take_succ_cons, hexByte, dropWhile_cons_of_neg (by simp [hspace])]
    simp only [hplus, hminus, hhi, Bool.false_eq_true, if_false]
    split
    · exact ⟨_, rfl⟩
    · exact ⟨_, rfl⟩
  obtain ⟨d, hd⟩ := hbyte
  refine ⟨d, ?_⟩
  rw [decodeReading, if_pos (by simp), if_neg (by simp [ha]), hd]

/-- Nothing follows: the byte behind the text is read. -/
theorem decodeReading_end : i + 1 ∈ (decodeReading after s i [chr '%']).1 := by
  rw [decodeReading, if_pos (by simp)]
  split_ifs
  · simp
  · split <;> simp

end

/-- With a byte behind the text that is no digit, this is `decode`. -/
theorem decodeReading_eq {after : UInt8} (hafter : isHex after = false) (s : Bytes) :
    ∀ (rest : Bytes) (i : Nat), (decodeReading after s i rest).2 = decodeFrom .strict s i rest
  | [], i => by
    rw [decodeReading, decodeFrom]
  | c :: cs, i => by
    rw [decodeReading, decodeFrom]
    have hcheck : (UriCheck.strict == .strict && (cs.head?.bind hexDigit).isNone) =
        !isHex (cs.head?.getD after) := by
      cases cs with
      | nil => simp [hafter]
      | cons a t => simp [isHex]
    rw [hcheck]
    split_ifs with hc hdigit
    · rfl
    · cases hexByte (cs.take 2) with
      | none => rfl
      | some d =>
        dsimp only
        rw [decodeReading_eq hafter s (cs.drop 2) (i + 3)]
    · dsimp only
      rw [decodeReading_eq hafter s cs (i + 1)]
  termination_by rest => rest.length
  decreasing_by all_goals simp only [length_drop, length_cons]; omega

/-! ### Whole texts -/

/-- The rounds of the loop: a character, or a '%' with nothing, with no digit
or with a digit behind it. -/
theorem scan_induction {P : Bytes → Nat → Prop} (nil : ∀ i, P [] i)
    (other : ∀ {c cs i}, c ≠ chr '%' → P cs (i + 1) → P (c :: cs) i)
    (last : ∀ i, P [chr '%'] i) (bad : ∀ {cs i}, BadDigit cs → P (chr '%' :: cs) i)
    (digit : ∀ {cs i}, FirstDigit cs → P (cs.drop 2) (i + 3) → P (chr '%' :: cs) i) :
    ∀ (rest : Bytes) (i : Nat), P rest i
  | [], i => nil i
  | c :: cs, i => by
    have hlen : (cs.drop 2).length < (c :: cs).length := by
      rw [length_drop, length_cons]
      omega
    by_cases hc : c = chr '%'
    · subst hc
      rcases firstDigit_or cs with rfl | hdigit | hbad
      · exact last i
      · exact digit hdigit (scan_induction nil other last bad digit (cs.drop 2) (i + 3))
      · exact bad hbad
    · exact other hc (scan_induction nil other last bad digit cs (i + 1))
  termination_by rest => rest.length

section
variable (after : UInt8) (s : Bytes) (rest : Bytes)

theorem decodeReading_ok (i : Nat) : (∀ e ∈ escapes rest, FirstDigit e) →
    ∃ r, (decodeReading after s i rest).2 = .ok r := by
  induction rest, i using scan_induction with
  | nil i => exact fun _ => ⟨[], by rw [decodeReading]⟩
  | @other c cs i hc ih =>
    intro h
    rw [escapes_other hc] at h
    obtain ⟨r, hr⟩ := ih h
    exact ⟨c :: r, by rw [decodeReading_other after s i hc, hr]; rfl⟩
  | last i =>
    intro h
    obtain ⟨a, t, heq, -⟩ := h [] (by rw [escapes_percent]; exact mem_cons_self)
    cases heq
  | @bad cs i hbad =>
    intro h
    exact absurd (h cs (by rw [escapes_percent]; exact mem_cons_self)) hbad.not_firstDigit
  | @digit cs i hdigit ih =>
    intro h
    rw [escapes_percent] at h
    obtain ⟨r, hr⟩ := ih fun e he => h e (mem_cons_of_mem cs he)
    obtain ⟨d, hd⟩ := decodeReading_digit after s i hdigit
    exact ⟨d :: r, by rw [hd, hr]; rfl⟩

theorem decodeReading_error (i : Nat) : (∃ e ∈ escapes rest, BadDigit e) →
    ∃ position, (decodeReading after s i rest).2 = .error (.erroneousEscape position s) := by
  induction rest, i using scan_induction with
  | nil i =>
    rintro ⟨e, he, -⟩
    rw [escapes] at he
    cases he
  | @other c cs i hc ih =>
    intro h
    rw [escapes_other hc] at h
    obtain ⟨position, herror⟩ := ih h
    exact ⟨position, by rw [decodeReading_other after s i hc, herror]; rfl⟩
  | last i =>
    rintro ⟨e, he, a, t, rfl, -⟩
    rw [escapes_percent, drop_nil, escapes, mem_singleton] at he
    cases he
  | bad hbad => exact fun _ => ⟨_, by rw [decodeReading_bad after s _ hbad]⟩
  | @digit cs i hdigit ih =>
    rintro ⟨e, he, hbad⟩
    rw [escapes_percent, mem_cons] at he
    rcases he with rfl | he
    · exact absurd hdigit hbad.not_firstDigit
    · obtain ⟨position, herror⟩ := ih ⟨e, he, hbad⟩
      obtain ⟨d, hd⟩ := decodeReading_digit after s i hdigit
      exact ⟨position, by rw [hd, herror]; rfl⟩

/-- The positions of an escape lie inside the text. -/
theorem mem_escape_reads {cs : Bytes} (h : FirstDigit cs) {i p : Nat}
    (hp : p ∈ i :: (i + 1) :: List.range' (i + 1) (cs.take 2).length) :
    p < i + (cs.length + 1) := by
  obtain ⟨a, t, rfl, -⟩ := h
  simp only [mem_cons, mem_range'_1, length_take, length_cons] at hp ⊢
  omega

/-- Only a '%' that ends the text makes the loop read too far, and only if no
other escape has stopped it before. -/
theorem decodeReading_inside (i : Nat) : ([] ∉ escapes rest ∨ ∃ e ∈ escapes rest, BadDigit e) →
      ∀ p ∈ (decodeReading after s i rest).1, p < i + rest.length := by
  induction rest, i using scan_induction with
  | nil i =>
    intro _ p hp
    rw [decodeReading] at hp
    cases hp
  | @other c cs i hc ih =>
    intro h p hp
    rw [escapes_other hc] at h
    rw [decodeReading_other after s i hc] at hp
    rcases mem_cons.mp hp with rfl | hp
    · simp
    · have := ih h p hp
      rw [length_cons]
      omega
  | last i =>
    rw [escapes_percent, drop_nil, escapes]
    rintro (hnil | ⟨e, he, a, t, rfl, -⟩)
    · exact absurd mem_cons_self hnil
    · cases mem_singleton.mp he
  | @bad cs i hbad =>
    intro _ p hp
    rw [decodeReading_bad after s i hbad] at hp
    obtain ⟨a, t, rfl, -⟩ := hbad
    simp only [mem_cons, not_mem_nil, or_false] at hp
    simp only [length_cons]
    omega
  | @digit cs i hdigit ih =>
    intro h p hp
    have hrest : [] ∉ escapes (cs.drop 2) ∨ ∃ e ∈ escapes (cs.drop 2), BadDigit e := by
      rw [escapes_percent] at h
      refine h.imp (fun hnil hmem => hnil (mem_cons_of_mem cs hmem)) ?_
      rintro ⟨e, he, hbad⟩
      rcases mem_cons.mp he with rfl | he
      · exact absurd hdigit hbad.not_firstDigit
      · exact ⟨e, he, hbad⟩
    obtain ⟨d, hd⟩ := decodeReading_digit after s i hdigit
    rw [hd] at hp
    rcases mem_append.mp hp with hp | hp
    · exact mem_escape_reads hdigit hp
    · have hlt := ih hrest p hp
      obtain ⟨a, t, rfl, -⟩ := hdigit
      cases t with
      | nil =>
        -- one digit ends the text: nothing is left to read
        rw [drop_succ_cons, drop_nil, decodeReading] at hp
        cases hp
      | cons b t =>
        simp only [drop_succ_cons, drop_zero, length_cons] at hlt ⊢
        omega

theorem decodeReading_outside (i : Nat) : [] ∈ escapes rest →
    (∀ e ∈ escapes rest, ¬BadDigit e) → i + rest.length ∈ (decodeReading after s i rest).1 := by
  induction rest, i using scan_induction with
  | nil i =>
    intro h
    rw [escapes] at h
    cases h
  | @other c cs i hc ih =>
    intro h hgood
    rw [escapes_other hc] at h hgood
    have hmem := ih h hgood
    rw [decodeReading_other after s i hc, length_cons, Nat.add_comm cs.length, ← Nat.add_assoc]
    exact mem_cons_of_mem _ hmem
  | last i => exact fun _ _ => decodeReading_end after s i
  | @bad cs i hbad =>
    intro _ hgood
    exact absurd hbad (hgood cs (by rw [escapes_percent]; exact mem_cons_self))
  | @digit cs i hdigit ih =>
    intro h hgood
    rw [escapes_percent] at h hgood
    obtain ⟨d, hd⟩ := decodeReading_digit after s i hdigit
    obtain ⟨a, t, rfl, -⟩ := hdigit
    have hrest : [] ∈ escapes ((a :: t).drop 2) := by simpa using h
    cases t with
    | nil =>
      rw [drop_succ_cons, drop_nil, escapes] at hrest
      cases hrest
    | cons b t =>
      have hmem := ih hrest fun e he => hgood e (mem_cons_of_mem _ he)
      have hlen : i + (chr '%' :: a :: b :: t).length =
          i + 3 + ((a :: b :: t).drop 2).length := by
        simp only [drop_succ_cons, drop_zero, length_cons]
        omega
      rw [hlen, hd]
      exact mem_append_right _ hmem

end

/-- What strict decoding should do: exactly the texts that are not well
formed are rejected, by an exception, and nothing outside the text is read,
whatever stands there. -/
def RejectsMalformed (s : Bytes) : Prop :=
  ∀ after, ((∃ r, (decodeReading after s 0 s).2 = .ok r) ↔ WellFormed s) ∧
    (¬WellFormed s →
      ∃ position, (decodeReading after s 0 s).2 = .error (.erroneousEscape position s)) ∧
    ∀ p ∈ (decodeReading after s 0 s).1, p < s.length

/-- Strict decoding does so for the texts that are well formed, and for those
with an escape whose first character is there and no digit. -/
theorem strict_decode_iff (s : Bytes) :
    RejectsMalformed s ↔ WellFormed s ∨ ∃ rest ∈ escapes s, BadDigit rest := by
  constructor
  · intro h
    by_contra hnot
    obtain ⟨hmalformed, hgood⟩ := not_or.mp hnot
    have hgood : ∀ rest ∈ escapes s, ¬BadDigit rest := fun rest he hbad => hgood ⟨rest, he, hbad⟩
    obtain ⟨hiff, -, hinside⟩ := h 0
    by_cases hnil : [] ∈ escapes s
    · have hread := decodeReading_outside 0 s s 0 hnil hgood
      have hlt := hinside _ hread
      omega
    · refine hmalformed (hiff.mp (decodeReading_ok 0 s s 0 fun rest he => ?_))
      rcases firstDigit_or rest with rfl | hdigit | hbad
      · exact absurd he hnil
      · exact hdigit
      · exact absurd hbad (hgood rest he)
  · rintro (hwell | hbad) after
    · have hdigits : ∀ rest ∈ escapes s, FirstDigit rest := fun rest he => (hwell rest he).firstDigit
      refine ⟨iff_of_true (decodeReading_ok after s s 0 hdigits) hwell, fun h => absurd hwell h, ?_⟩
      have hnil : [] ∉ escapes s := by
        intro he
        obtain ⟨a, t, heq, -⟩ := hdigits [] he
        cases heq
      simpa using decodeReading_inside after s s 0 (Or.inl hnil)
    · obtain ⟨position, herror⟩ := decodeReading_error after s s 0 hbad
      have hmalformed : ¬WellFormed s := by
        intro hwell
        obtain ⟨rest, he, hbad⟩ := hbad
        exact hbad.not_firstDigit (hwell rest he).firstDigit
      refine ⟨iff_of_false ?_ hmalformed, fun _ => ⟨position, herror⟩, ?_⟩
      · rintro ⟨r, hr⟩
        rw [herror] at hr
        cases hr
      · simpa using decodeReading_inside after s s 0 (Or.inr hbad)

/-- "%4G" is accepted, and "%4" too; at "%" the byte behind the text is read. -/
theorem strict_decode_accepts_malformed :
    (∀ after, (decodeReading after (str "%4G") 0 (str "%4G")).2 = .ok [4]) ∧
      ¬WellFormed (str "%4G") ∧
      (∀ after, (decodeReading after (str "%4") 0 (str "%4")).2 = .ok [4]) ∧
      ¬WellFormed (str "%4") ∧
      ∀ after, 1 ∈ (decodeReading after (str "%") 0 (str "%")).1 := by
  have hescapes : ∀ rest : Bytes, ¬Escape rest → ¬WellFormed (chr '%' :: rest) := by
    intro rest hnot hwell
    exact hnot (hwell rest (by rw [escapes_percent]; exact mem_cons_self))
  have haccepted : ∀ (after : UInt8) (s rest : Bytes), rest.drop 2 = [] →
      hexByte (rest.take 2) = some 4 → rest.head? = some (chr '4') →
      (decodeReading after s 0 (chr '%' :: rest)).2 = .ok [4] := by
    intro after s rest hdrop hbyte hhead
    rw [decodeReading, if_pos (by simp), hhead, if_neg (by simp; decide), hbyte, hdrop, decodeReading]
    rfl
  refine ⟨fun after => haccepted after _ (str "4G") rfl (by decide) rfl,
    hescapes (str "4G") ?_, fun after => haccepted after _ (str "4") rfl (by decide) rfl,
    hescapes (str "4") ?_, fun after => decodeReading_end after _ 0⟩
  · rintro ⟨a, b, t, heq, -, hb⟩
    obtain ⟨-, heq⟩ := List.cons.inj heq
    obtain ⟨rfl, -⟩ := List.cons.inj heq
    exact absurd hb (by decide)
  · rintro ⟨a, b, t, heq, -⟩
    cases (List.cons.inj heq).2

end OpenCmw
