import OpenCmw.Uri

/-!
# Decimal texts of integers

The integers of the standard library as texts: `std::format`, `std::stoi` and
`std::from_chars`. A decimal text is an optional minus sign and digits
(`IsDecimal`). `std::from_chars` reads the longest one a text starts with
and leaves the rest; that it stopped early, and that the number does not fit
its type, are for its callers to find out (`fromCharsInt_cases`).
-/

namespace OpenCmw

open List

/-- The integer types numbers are parsed as. -/
inductive IntType where
  | int8
  | int16
  | int32
  | int64
  | uint8
  deriving DecidableEq, Repr

namespace IntType

def signed : IntType → Bool
  | .uint8 => false
  | _ => true

def min : IntType → Int
  | .int8 => -2 ^ 7
  | .int16 => -2 ^ 15
  | .int32 => -2 ^ 31
  | .int64 => -2 ^ 63
  | .uint8 => 0

def max : IntType → Int
  | .int8 => 2 ^ 7 - 1
  | .int16 => 2 ^ 15 - 1
  | .int32 => 2 ^ 31 - 1
  | .int64 => 2 ^ 63 - 1
  | .uint8 => 2 ^ 8 - 1

/-- `n` is a value of the type. -/
def Fits (t : IntType) (n : Int) : Prop := t.min ≤ n ∧ n ≤ t.max
  deriving Decidable

end IntType

/-- `std::format("{}", n)`. -/
def formatInt (n : Int) : Bytes := (if n < 0 then [chr '-'] else []) ++ toDec n.natAbs

/-- `std::stoi`; `none` where it throws. -/
def stoi (s : Bytes) : Option Int :=
  let s := s.dropWhile isSpace
  let negative := s.head? == some (chr '-')
  let s := if negative || s.head? == some (chr '+') then s.drop 1 else s
  let digits := s.takeWhile isDigit
  let value : Int := if negative then -ofDec digits else ofDec digits
  if digits.isEmpty then none
  else if -2 ^ 31 ≤ value ∧ value < 2 ^ 31 then some value
  else none

/-- What `std::from_chars` reports, with the text it did not read. -/
inductive FromChars where
  | invalidArgument
  | outOfRange (rest : Bytes)
  | ok (value : Int) (rest : Bytes)
  deriving DecidableEq, Repr

/-- `std::from_chars` for an integer type. -/
def fromCharsInt (t : IntType) (s : Bytes) : FromChars :=
  let negative := t.signed && s.head? == some (chr '-')
  let s := if negative then s.drop 1 else s
  let digits := s.takeWhile isDigit
  let value : Int := if negative then -ofDec digits else ofDec digits
  if digits.isEmpty then .invalidArgument
  else if t.Fits value then .ok value (s.drop digits.length)
  else .outOfRange (s.drop digits.length)

/-! ## Complete decimal texts -/

/-- `s` is a decimal text of `n`; a sign is only allowed where it is. -/
inductive IsDecimal (signed : Bool) : Bytes → Int → Prop
  | nonneg {digits : Bytes} (hne : digits ≠ []) (hdigits : ∀ c ∈ digits, isDigit c = true) :
      IsDecimal signed digits (ofDec digits)
  | neg {digits : Bytes} (hsigned : signed = true) (hne : digits ≠ [])
      (hdigits : ∀ c ∈ digits, isDigit c = true) :
      IsDecimal signed (chr '-' :: digits) (-ofDec digits)

theorem IsDecimal.chars {signed : Bool} {s : Bytes} {n : Int} (h : IsDecimal signed s n) :
    s ≠ [] ∧ ∀ c ∈ s, isDigit c = true ∨ c = chr '-' := by
  cases h with
  | nonneg hne hdigits => exact ⟨hne, fun c hc => .inl (hdigits c hc)⟩
  | neg _ _ hdigits =>
    exact ⟨cons_ne_nil _ _, fun c hc => (mem_cons.mp hc).symm.imp_left (hdigits c)⟩

theorem isDecimal_formatInt (n : Int) : IsDecimal true (formatInt n) n := by
  unfold formatInt
  have hdigits : ∀ c ∈ toDec n.natAbs, isDigit c = true := fun c hc => isDigit_of_mem_toDec hc
  split_ifs with hneg
  · have h := IsDecimal.neg rfl (toDec_ne_nil _) hdigits
    rwa [ofDec_toDec, Int.ofNat_natAbs_of_nonpos hneg.le, neg_neg] at h
  · have h : IsDecimal true _ _ := .nonneg (toDec_ne_nil _) hdigits
    rwa [ofDec_toDec, Int.natAbs_of_nonneg (not_lt.mp hneg)] at h

/-- `s` is the complete decimal text of a value of the type. -/
def Denotes (t : IntType) (s : Bytes) (n : Int) : Prop := IsDecimal t.signed s n ∧ t.Fits n

/-- The number and what is left of a text that starts with one. -/
theorem fromCharsInt_append {t : IntType} {s rest : Bytes} {n : Int} (h : IsDecimal t.signed s n)
    (hrest : ∀ c ∈ rest.head?, isDigit c = false) :
    fromCharsInt t (s ++ rest) = if t.Fits n then .ok n rest else .outOfRange rest := by
  have htake {digits : Bytes} (hdigits : ∀ c ∈ digits, isDigit c = true) :
      (digits ++ rest).takeWhile isDigit = digits := by
    rw [takeWhile_append_of_pos hdigits]
    cases rest with
    | nil => simp
    | cons c rest => rw [takeWhile_cons_of_neg (by simp [hrest c rfl]), append_nil]
  unfold fromCharsInt
  cases h with
  | nonneg hne hdigits =>
    obtain ⟨c, cs, rfl⟩ := exists_cons_of_ne_nil hne
    have hc : c ≠ chr '-' := by
      rintro rfl
      exact absurd (hdigits _ mem_cons_self) (by decide)
    have hneg : (t.signed && (c :: cs ++ rest).head? == some (chr '-')) = false := by simp [hc]
    dsimp only
    rw [hneg, if_neg Bool.false_ne_true, htake hdigits, if_neg (by simp), drop_left]
    rfl
  | neg hsigned hne hdigits =>
    rename_i digits
    have hneg : (t.signed && (chr '-' :: digits ++ rest).head? == some (chr '-')) = true := by
      simp [hsigned]
    dsimp only
    rw [hneg, if_pos rfl, cons_append, drop_succ_cons, drop_zero, htake hdigits,
      if_neg (by simpa using hne), drop_left]
    rfl

theorem head?_dropWhile_isDigit (s : Bytes) : ∀ c ∈ (s.dropWhile isDigit).head?, isDigit c = false := by
  intro c hc
  have hnot := head?_dropWhile_not isDigit s
  rw [Option.mem_def.mp hc] at hnot
  exact hnot

/-- A text starts with a number or it does not. -/
theorem fromCharsInt_cases (t : IntType) (s : Bytes) : fromCharsInt t s = .invalidArgument ∨
      ∃ p n rest, s = p ++ rest ∧ IsDecimal t.signed p n ∧ (∀ c ∈ rest.head?, isDigit c = false) ∧
        fromCharsInt t s = if t.Fits n then .ok n rest else .outOfRange rest := by
  by_cases hneg : (t.signed && s.head? == some (chr '-')) = true
  · simp only [Bool.and_eq_true, beq_iff_eq] at hneg
    obtain ⟨hsigned, hhead⟩ := hneg
    obtain ⟨body, rfl⟩ : ∃ body, s = chr '-' :: body := by
      cases s with
      | nil => cases hhead
      | cons c body => exact ⟨body, by rw [Option.some.inj hhead]⟩
    by_cases hdigits : body.takeWhile isDigit = []
    · exact .inl (by simp [fromCharsInt, hsigned, hdigits])
    · have hp : IsDecimal t.signed (chr '-' :: body.takeWhile isDigit) _ :=
        .neg hsigned hdigits fun c hc => mem_takeWhile_imp hc
      have hrest := head?_dropWhile_isDigit body
      have hs : chr '-' :: body = chr '-' :: body.takeWhile isDigit ++ body.dropWhile isDigit := by
        rw [cons_append, takeWhile_append_dropWhile]
      refine .inr ⟨_, _, _, hs, hp, hrest, ?_⟩
      rw [hs]
      exact fromCharsInt_append hp hrest
  · have hneg := Bool.eq_false_iff.mpr hneg
    by_cases hdigits : s.takeWhile isDigit = []
    · exact .inl (by simp [fromCharsInt, hneg, hdigits])
    · have hp : IsDecimal t.signed (s.takeWhile isDigit) _ :=
        .nonneg hdigits fun c hc => mem_takeWhile_imp hc
      have hrest := head?_dropWhile_isDigit s
      have hs : s = s.takeWhile isDigit ++ s.dropWhile isDigit :=
        takeWhile_append_dropWhile.symm
      refine .inr ⟨_, _, _, hs, hp, hrest, ?_⟩
      have happ := fromCharsInt_append hp hrest
      rwa [← hs] at happ

/-- All of a text is read exactly if it is the decimal text of a value. -/
theorem fromCharsInt_eq_ok_nil_iff {t : IntType} {s : Bytes} {n : Int} :
    fromCharsInt t s = .ok n [] ↔ Denotes t s n := by
  constructor
  · intro h
    rcases fromCharsInt_cases t s with hinvalid | ⟨p, m, _, rfl, hp, -, heq⟩
    · rw [hinvalid] at h
      cases h
    · rw [heq] at h
      split_ifs at h with hfits
      obtain ⟨rfl, rfl⟩ := FromChars.ok.inj h
      rw [append_nil]
      exact ⟨hp, hfits⟩
  · rintro ⟨hdec, hfits⟩
    have happ : fromCharsInt t (s ++ []) = _ := fromCharsInt_append hdec nofun
    rwa [append_nil, if_pos hfits] at happ

end OpenCmw
