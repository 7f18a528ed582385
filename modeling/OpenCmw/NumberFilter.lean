import OpenCmw.DecimalText
import OpenCmw.Topic

/-!
# The number filter

`NumberFilter<T>` compares a notified with a subscribed parameter as numbers
of the integer type `T`, with `parseNumber` for both. `parseNumber` tells a
text that is no number from one that does not fit `T`, and the filter gives
up on the former only: a number out of range is taken for the zero its
variable was made with. So two texts match by value unless one of them is
out of range and both are taken for zero (`numberFilter_matches_iff`).
-/

namespace OpenCmw

/-- What `parseNumber` returns. -/
inductive Errc where
  | success
  | invalidArgument
  | resultOutOfRange
  deriving DecidableEq, Repr

/-- The error code and the number, which is only written to if one was read. -/
def parseNumber (t : IntType) (s : Bytes) (number : Int) : Errc × Int :=
  match fromCharsInt t s with
  | .ok value rest => (if rest.isEmpty then .success else .invalidArgument, value)
  | .invalidArgument => (.invalidArgument, number)
  | .outOfRange _ => (.resultOutOfRange, number)

/-- `NumberFilter<T>::operator()`. -/
def numberFilter (t : IntType) (notified subscribed : Bytes) : Bool :=
  let subscribedNumber := parseNumber t subscribed 0
  if subscribedNumber.1 = .invalidArgument then false
  else
    let notifiedNumber := parseNumber t notified 0
    if notifiedNumber.1 = .invalidArgument then false
    else subscribedNumber.2 == notifiedNumber.2

/-! ## What the filter takes a text for -/

/-- `s` starts with a number that is no value of the type. -/
def OutOfRange (t : IntType) (s : Bytes) : Prop :=
  ∃ p n rest, s = p ++ rest ∧ IsDecimal t.signed p n ∧ (∀ c ∈ rest.head?, isDigit c = false) ∧
    ¬t.Fits n

variable {t : IntType} {s : Bytes}

theorem outOfRange_iff : OutOfRange t s ↔ ∃ rest, fromCharsInt t s = .outOfRange rest := by
  constructor
  · rintro ⟨p, n, rest, rfl, hp, hrest, hfits⟩
    exact ⟨rest, by rw [fromCharsInt_append hp hrest, if_neg hfits]⟩
  · rintro ⟨rest, hres⟩
    rcases fromCharsInt_cases t s with hinvalid | ⟨p, n, rest', rfl, hp, hrest', heq⟩
    · rw [hinvalid] at hres
      cases hres
    · rw [heq] at hres
      split_ifs at hres with hfits
      exact ⟨p, n, rest', rfl, hp, hrest', hfits⟩

theorem Denotes.not_outOfRange {n : Int} (h : Denotes t s n) : ¬OutOfRange t s := by
  rw [outOfRange_iff]
  rintro ⟨_, hrest⟩
  rw [fromCharsInt_eq_ok_nil_iff.mpr h] at hrest
  cases hrest

/-- The number the filter compares, if it goes on with the text. -/
def taken (t : IntType) (s : Bytes) : Option Int :=
  if (parseNumber t s 0).1 = .invalidArgument then none else some (parseNumber t s 0).2

theorem taken_eq_some_iff {n : Int} :
    taken t s = some n ↔ Denotes t s n ∨ OutOfRange t s ∧ n = 0 := by
  have hdenotes : Denotes t s n ↔ fromCharsInt t s = .ok n [] := fromCharsInt_eq_ok_nil_iff.symm
  rw [hdenotes, outOfRange_iff, taken, parseNumber]
  cases fromCharsInt t s with
  | invalidArgument => simp
  | outOfRange rest => simp [eq_comm]
  | ok value rest => cases rest <;> simp

theorem numberFilter_eq_true_iff {notified subscribed : Bytes} :
    numberFilter t notified subscribed = true ↔
      ∃ n, taken t notified = some n ∧ taken t subscribed = some n := by
  unfold numberFilter taken
  by_cases hsubscribed : (parseNumber t subscribed 0).1 = .invalidArgument
  · simp [hsubscribed]
  by_cases hnotified : (parseNumber t notified 0).1 = .invalidArgument
  · simp [hsubscribed, hnotified]
  · simp only [hsubscribed, hnotified, if_false, beq_iff_eq, Option.some.injEq]
    exact ⟨fun h => ⟨_, h.symm, rfl⟩, fun ⟨n, hn, hs⟩ => hs.trans hn.symm⟩

/-- The filter matches by value exactly if it does not take both texts for
zero while one of them is out of range. -/
theorem numberFilter_matches_iff (t : IntType) (notified subscribed : Bytes) :
    (numberFilter t notified subscribed = true ↔
        ∃ n, Denotes t notified n ∧ Denotes t subscribed n) ↔
      ¬((OutOfRange t notified ∨ OutOfRange t subscribed) ∧
        (OutOfRange t notified ∨ Denotes t notified 0) ∧
        (OutOfRange t subscribed ∨ Denotes t subscribed 0)) := by
  rw [numberFilter_eq_true_iff]
  simp only [taken_eq_some_iff]
  constructor
  · rintro hmatch ⟨hout, hnotified, hsubscribed⟩
    obtain ⟨n, hn, hs⟩ := hmatch.mp ⟨0, hnotified.symm.imp id fun h => ⟨h, rfl⟩,
      hsubscribed.symm.imp id fun h => ⟨h, rfl⟩⟩
    exact hout.elim hn.not_outOfRange hs.not_outOfRange
  · intro hno
    constructor
    · rintro ⟨n, hn, hs⟩
      rcases hn with hn | ⟨hn, rfl⟩ <;> rcases hs with hs | ⟨hs, hzero⟩
      · exact ⟨n, hn, hs⟩
      · exact absurd ⟨.inr hs, .inr (hzero ▸ hn), .inl hs⟩ hno
      · exact absurd ⟨.inl hn, .inl hn, .inr hs⟩ hno
      · exact absurd ⟨.inl hn, .inl hn, .inl hs⟩ hno
    · rintro ⟨n, hn, hs⟩
      exact ⟨n, .inl hn, .inl hs⟩

/-- 300 is no `int8_t`, and matches 0. -/
theorem number_out_of_range_matches_zero :
    numberFilter .int8 (str "300") (str "0") = true ∧
      ¬∃ n, Denotes .int8 (str "300") n ∧ Denotes .int8 (str "0") n := by
  have hrange : fromCharsInt .int8 (str "300") = .outOfRange [] := by decide +kernel
  exact ⟨by decide +kernel, fun ⟨n, hn, _⟩ => hn.not_outOfRange (outOfRange_iff.mpr ⟨[], hrange⟩)⟩

end OpenCmw
