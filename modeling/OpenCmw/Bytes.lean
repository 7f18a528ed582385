import Mathlib

/-!
# Byte strings

A `std::string` or `std::string_view` is a list of bytes. This module
fixes the handful of operations the programs below are written with -
`starts_with`, `find`, `find_first_of`, `std::to_string` and
`std::from_chars` on unsigned 64-bit numbers - and the facts about them
that parsers rest on.

The search lemmas come in two groups. `find_eq_some_iff` says what a hit
is; `find_append_of_some` and `findFrom_append_of_some` say that a hit
survives appending to the searched text, which is all a prefix argument
ever needs. `find_cons_append_of_notMem` skips text that lacks the
pattern's first byte, which is all a round-trip argument needs.
-/

namespace OpenCmw

open List Nat

abbrev Bytes := List UInt8

instance instLinearOrderUInt8 : LinearOrder UInt8 where
  le_refl _ := UInt8.le_refl _
  le_trans _ _ _ := UInt8.le_trans
  le_antisymm _ _ := UInt8.le_antisymm
  le_total := UInt8.le_total
  lt_iff_le_not_ge a b := by
    rw [UInt8.lt_iff_toNat_lt, UInt8.le_iff_toNat_le, UInt8.le_iff_toNat_le]
    omega
  toDecidableLE := inferInstance
  toDecidableEq := inferInstance
  toDecidableLT := inferInstance

instance instLawfulBEqUInt8 : LawfulBEq UInt8 := inferInstance

/-- The bytes of an ASCII literal. -/
def str (s : String) : Bytes := s.toList.map fun c => UInt8.ofNat c.toNat

/-- One ASCII character as a byte. -/
def chr (c : Char) : UInt8 := UInt8.ofNat c.toNat

/-- A fact about a byte is one about 256 numbers. -/
theorem forall_uint8 {P : UInt8 → Prop} (h : ∀ i : Fin 256, P (UInt8.ofFin i)) (c : UInt8) :
    P c := h c.toFin

/-! ## Searching -/

/-- `s.starts_with(p)`. -/
def startsWith (s p : Bytes) : Bool := p.isPrefixOf s

variable {s p pat : Bytes} {i pos : Nat}

theorem startsWith_iff : startsWith s p = true ↔ p <+: s :=
  isPrefixOf_iff_prefix

theorem not_startsWith_iff : startsWith s p = false ↔ ¬p <+: s := by
  rw [← startsWith_iff, Bool.not_eq_true]

theorem startsWith_append (p s : Bytes) : startsWith (p ++ s) p = true :=
  startsWith_iff.mpr (prefix_append p s)

theorem startsWith_append_of_startsWith (t : Bytes)
    (h : startsWith s p = true) : startsWith (s ++ t) p = true :=
  startsWith_iff.mpr ((startsWith_iff.mp h).trans (prefix_append s t))

/-- `s.find(pat)`: the first position at which `pat` occurs. -/
def find (pat : Bytes) : Bytes → Option Nat
  | [] => if pat.isEmpty then some 0 else none
  | c :: cs => if startsWith (c :: cs) pat then some 0 else (find pat cs).map (· + 1)

/-- `s.find(pat, pos)`. -/
def findFrom (pat s : Bytes) (pos : Nat) : Option Nat :=
  if pos ≤ s.length then (find pat (s.drop pos)).map (· + pos) else none

/-- `s.find_first_of(set, pos)`, with `s.size()` in place of `npos`. -/
def findFirstOf (set s : Bytes) (pos : Nat) : Nat :=
  pos + ((s.drop pos).takeWhile fun c => !set.contains c).length

theorem find_eq_some_iff : ∀ {s : Bytes} {i : Nat}, find pat s = some i ↔
      i ≤ s.length ∧ pat <+: s.drop i ∧ ∀ j < i, ¬pat <+: s.drop j
  | [], i => by
    rw [find]
    cases pat with
    | nil => simp +contextual [eq_comm]
    | cons c cs => simp
  | c :: cs, i => by
    rw [find]
    by_cases h : startsWith (c :: cs) pat = true
    · rw [if_pos h]
      constructor
      · intro hi
        cases hi
        exact ⟨zero_le _, by simpa using startsWith_iff.mp h, by simp⟩
      · rintro ⟨-, -, hmin⟩
        rcases Nat.eq_zero_or_pos i with rfl | hpos
        · rfl
        · exact absurd (by simpa using startsWith_iff.mp h) (hmin 0 hpos)
    · rw [if_neg h]
      have h0 : ¬pat <+: c :: cs := fun hp => h (startsWith_iff.mpr hp)
      cases i with
      | zero => simp [h0]
      | succ i =>
        rw [Option.map_eq_some_iff]
        constructor
        · rintro ⟨k, hk, hki⟩
          obtain rfl : k = i := succ.inj hki
          obtain ⟨hle, hpre, hmin⟩ := find_eq_some_iff.mp hk
          refine ⟨succ_le_succ hle, by simpa using hpre, fun j hj => ?_⟩
          cases j with
          | zero => simpa using h0
          | succ j => simpa using hmin j (lt_of_succ_lt_succ hj)
        · rintro ⟨hle, hpre, hmin⟩
          refine ⟨i, find_eq_some_iff.mpr ⟨le_of_succ_le_succ hle,
            by simpa using hpre, fun j hj => ?_⟩, rfl⟩
          simpa using hmin (j + 1) (succ_lt_succ hj)

theorem find_add_length_le (h : find pat s = some i) : i + pat.length ≤ s.length := by
  obtain ⟨hle, hpre, -⟩ := find_eq_some_iff.mp h
  have := hpre.length_le
  rw [length_drop] at this
  omega

/-- Where the pattern occurs at all, the search finds it there or before. -/
theorem exists_find_le (hle : i ≤ s.length)
    (hpre : pat <+: s.drop i) : ∃ j ≤ i, find pat s = some j := by
  have hex : ∃ j, pat <+: s.drop j := ⟨i, hpre⟩
  classical
  refine ⟨Nat.find hex, Nat.find_min' hex hpre, find_eq_some_iff.mpr
    ⟨(Nat.find_min' hex hpre).trans hle, Nat.find_spec hex, fun j hj => Nat.find_min hex hj⟩⟩

/-- A hit stays the first hit when the text grows at its end. -/
theorem find_append_of_some (t : Bytes) (h : find pat s = some i) : find pat (s ++ t) = some i := by
  have hlen := find_add_length_le h
  obtain ⟨hle, hpre, hmin⟩ := find_eq_some_iff.mp h
  refine find_eq_some_iff.mpr ⟨by simp; omega, ?_, fun j hj hp => hmin j hj ?_⟩
  · rw [drop_append_of_le_length hle]
    exact hpre.trans (prefix_append _ _)
  · rw [drop_append_of_le_length (by omega)] at hp
    exact prefix_of_prefix_length_le hp (prefix_append _ _) (by
      rw [length_drop]; omega)

/-- Text without the pattern's first byte cannot start a hit. -/
theorem find_cons_append_of_notMem {c : UInt8} : ∀ {l : Bytes} (s : Bytes), c ∉ l →
      find (c :: pat) (l ++ s) = (find (c :: pat) s).map (· + l.length)
  | [], s, _ => by simp
  | d :: l, s, h => by
    have hd : c ≠ d := fun hcd => h (hcd ▸ mem_cons_self ..)
    have hl : c ∉ l := fun hm => h (mem_cons_of_mem _ hm)
    have hno : startsWith (d :: (l ++ s)) (c :: pat) = false := by
      simp [startsWith, isPrefixOf, hd]
    rw [cons_append, find, hno, if_neg Bool.false_ne_true,
      find_cons_append_of_notMem s hl, Option.map_map]
    rfl

theorem find_of_startsWith (h : startsWith s pat = true) : find pat s = some 0 :=
  find_eq_some_iff.mpr ⟨zero_le _, startsWith_iff.mp h, by simp⟩

theorem findFrom_eq_some_iff : findFrom pat s pos = some i ↔
      pos ≤ s.length ∧ ∃ k, find pat (s.drop pos) = some k ∧ i = k + pos := by
  unfold findFrom
  by_cases hpos : pos ≤ s.length
  · rw [if_pos hpos, Option.map_eq_some_iff]
    simp only [hpos, true_and, eq_comm]
  · rw [if_neg hpos]
    simp [hpos]

theorem le_findFrom (h : findFrom pat s pos = some i) : pos ≤ i := by
  obtain ⟨-, k, -, rfl⟩ := findFrom_eq_some_iff.mp h
  exact Nat.le_add_left ..

theorem findFrom_append_of_some (t : Bytes)
    (h : findFrom pat s pos = some i) : findFrom pat (s ++ t) pos = some i := by
  obtain ⟨hle, k, hk, rfl⟩ := findFrom_eq_some_iff.mp h
  refine findFrom_eq_some_iff.mpr ⟨by simp; omega, k, ?_, rfl⟩
  rw [drop_append_of_le_length hle]
  exact find_append_of_some t hk

/-- A search from `pos` only reads the text from `pos` on. -/
theorem findFrom_append_right (pre : Bytes) (h : find pat s = some i) :
    findFrom pat (pre ++ s) pre.length = some (pre.length + i) :=
  findFrom_eq_some_iff.mpr ⟨by simp, i, by simpa using h, add_comm ..⟩

/-! ## Decimal numbers -/

/-- `std::to_string` of an unsigned number. -/
def toDec (n : Nat) : Bytes := (toDigits 10 n).map chr

/-- `'0' <= c && c <= '9'`. -/
def isDigit (b : UInt8) : Bool := 48 ≤ b && b ≤ 57

/-- The number a string of decimal digits denotes. -/
def ofDec (ds : Bytes) : Nat :=
  ofDigitChars 10 (ds.map fun b => Char.ofNat b.toNat) 0

/-- `std::from_chars` for `std::uint64_t`: the longest run of digits, and
what follows it; `none` without a digit (`invalid_argument`) or when the
value does not fit (`result_out_of_range`). -/
def fromChars (s : Bytes) : Option (UInt64 × Bytes) :=
  let ds := s.takeWhile isDigit
  if ds.isEmpty then none
  else if ofDec ds < 2 ^ 64 then some (UInt64.ofNat (ofDec ds), s.drop ds.length)
  else none

/-- `std::numeric_limits<std::uint64_t>::max()`. -/
def uint64Max : UInt64 := 18446744073709551615

theorem toNat_uint64Max : uint64Max.toNat = 2 ^ 64 - 1 := rfl

theorem isDigit_chr {c : Char} (h : c.isDigit = true) :
    isDigit (chr c) = true ∧ Char.ofNat (chr c).toNat = c := by
  have hc : c.toNat ≤ 57 ∧ 48 ≤ c.toNat := by
    simp only [Char.isDigit, Bool.and_eq_true, decide_eq_true_eq, ge_iff_le,
      UInt32.le_iff_toNat_le] at h
    exact ⟨h.2, h.1⟩
  have hb : (chr c).toNat = c.toNat := by
    rw [chr, UInt8.toNat_ofNat_of_lt']
    show c.toNat < 256
    omega
  constructor
  · simp only [isDigit, Bool.and_eq_true, decide_eq_true_eq, UInt8.le_iff_toNat_le, hb]
    exact ⟨hc.2, hc.1⟩
  · rw [hb]
    exact Char.ofNat_toNat c

theorem isDigit_of_mem_toDec {n : Nat} {b : UInt8} (h : b ∈ toDec n) : isDigit b = true := by
  obtain ⟨c, hc, rfl⟩ := mem_map.mp h
  exact (isDigit_chr (isDigit_of_mem_toDigits (by decide) (by decide) hc)).1

theorem ofDec_toDec (n : Nat) : ofDec (toDec n) = n := by
  have hmap : (toDec n).map (fun b => Char.ofNat b.toNat) = toDigits 10 n := by
    rw [toDec, map_map]
    conv => rhs; rw [← map_id (toDigits 10 n)]
    refine map_congr_left fun c hc => ?_
    exact (isDigit_chr (isDigit_of_mem_toDigits (by decide) (by decide) hc)).2
  rw [ofDec, hmap, ofDigitChars_ten_toDigits]

theorem toDec_ne_nil (n : Nat) : toDec n ≠ [] := by
  simp [toDec, toDigits_ne_nil]

/-- Reading back a printed number consumes all of it. -/
theorem fromChars_toDec (n : UInt64) : fromChars (toDec n.toNat) = some (n, []) := by
  have hds : (toDec n.toNat).takeWhile isDigit = toDec n.toNat :=
    takeWhile_eq_self_iff.mpr fun b hb => isDigit_of_mem_toDec hb
  have hne : (toDec n.toNat).isEmpty = false := by simp [toDec_ne_nil]
  unfold fromChars
  dsimp only
  rw [hds, ofDec_toDec, hne, if_neg Bool.false_ne_true, if_pos n.toNat_lt, drop_length,
    UInt64.ofNat_toNat]

end OpenCmw
