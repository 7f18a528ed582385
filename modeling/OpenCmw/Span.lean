import Mathlib

/-!
# Spans

A span is a stretch of a list, given by where it starts and how long it is:
what a string view is once the text it points into is known. `Piece` says
that a list continues with a span between two delimiters; a chain of pieces
from position 0 to the end of the list says that the spans are disjoint and
in order and leave out nothing but their delimiters.
-/

namespace OpenCmw

open List Nat

structure Span where
  start : Nat := 0
  size : Nat := 0
  deriving DecidableEq, Repr

namespace Span

variable {α : Type*} {s : List α} {v : Span}

def stop (v : Span) : Nat := v.start + v.size

theorem stop_mk {i j : Nat} (h : i ≤ j) : (⟨i, j - i⟩ : Span).stop = j := Nat.add_sub_cancel' h

def text (v : Span) (s : List α) : List α := (s.drop v.start).take v.size

/-- An empty span lies in every list, wherever it points. -/
def Inside (v : Span) (s : List α) : Prop := 0 < v.size → v.stop ≤ s.length
  deriving Decidable

/-- The part of a span from `pos` on, at most `count` long. -/
def sub (v : Span) (pos count : Nat) : Span := ⟨v.start + pos, min count (v.size - pos)⟩

theorem inside_of_size_eq_zero (h : v.size = 0) : v.Inside s := fun hpos =>
  absurd h hpos.ne'

theorem text_of_size_eq_zero (h : v.size = 0) : v.text s = [] := by
  rw [text, h, take_zero]

theorem length_text (h : v.Inside s) : (v.text s).length = v.size := by
  rcases Nat.eq_zero_or_pos v.size with hzero | hpos
  · rw [text_of_size_eq_zero hzero, hzero, length_nil]
  · have hstop := h hpos
    rw [stop] at hstop
    rw [text, length_take, length_drop]
    omega

theorem text_eq_nil_iff (h : v.Inside s) : v.text s = [] ↔ v.size = 0 := by
  rw [← length_eq_zero_iff, length_text h]

theorem text_sub (v : Span) (pos count : Nat) (s : List α) :
    (v.sub pos count).text s = ((v.text s).drop pos).take count := by
  simp only [text, sub, drop_take, drop_drop, take_take]

theorem Inside.sub (h : v.Inside s) (pos count : Nat) : (v.sub pos count).Inside s := by
  intro hpos
  have hsize : 0 < v.size - pos := lt_of_lt_of_le hpos (min_le_right _ _)
  have hstop := h (lt_of_lt_of_le hsize (sub_le _ _))
  simp only [stop, Span.sub] at hstop ⊢
  omega

/-! ## Pieces of a list -/

/-- From position `i` to position `j` the list is the span between two
delimiters, or nothing at all. -/
inductive Piece (s before : List α) (v : Span) (after : List α) : Nat → Nat → Prop
  | absent {i} (hsize : v.size = 0) : Piece s before v after i i
  | present {i} (hbefore : before <+: s.drop i) (hstart : v.start = i + before.length)
      (hafter : after <+: s.drop v.stop) (hstop : v.stop ≤ s.length) :
      Piece s before v after i (v.stop + after.length)

namespace Piece

variable {before after : List α} {i j : Nat}

/-- A span without delimiters. -/
theorem bare (hstart : v.start = i) (hstop : v.stop ≤ s.length) : Piece s [] v [] i v.stop :=
  present nil_prefix hstart nil_prefix hstop

/-- Where the delimiter in front does not stand, and neither does the span
start, there is no piece. -/
theorem eq_of_not_prefix (h : Piece s before v after i j)
    (hno : before <+: s.drop i → v.start = i + before.length → ¬after <+: s.drop v.stop) :
    j = i := by
  cases h with
  | absent => rfl
  | present hbef hstart hafter => exact absurd hafter (hno hbef hstart)

end Piece

end Span

end OpenCmw
