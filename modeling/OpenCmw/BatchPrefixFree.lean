import OpenCmw.LongPollingBatch

/-!
# Accepted batches are prefix free

A body that `decodeBatch` accepts stays unacceptable under every
extension, so a truncated body is never taken for a complete one. The
reason is that the decoder never looks at the end of the body except at
the final boundary: every search that succeeded succeeds at the same
place in the longer body (`decodePart_append`), and at the final boundary
the longer body has bytes left over.

`Decodes` is the loop's derivation - the part boundaries passed, then the
final one. Both halves of the result are inductions over it: the shape of
what was read (`Decodes.slices`, `Decodes.consecutive`) and the failure of
the longer body (`Decodes.append_error`).
-/

namespace OpenCmw

open List Nat

namespace LongPolling

/-! ## Derivations of the decoding loop -/

/-- A successful run of the loop: at `pos`, with `parts` read, it returns
`out`. -/
inductive Decodes (body boundary : Bytes) :
    Nat → List BatchPart → List BatchPart → Prop where
  | final {pos : Nat} {parts : List BatchPart}
      (hstart : startsWith (body.drop pos) (boundary ++ str "--\r\n") = true)
      (hend : pos + (boundary ++ str "--\r\n").length = body.length) :
      Decodes body boundary pos parts parts
  | part {pos next : Nat} {parts out : List BatchPart} {p : BatchPart}
      (hstart : startsWith (body.drop pos) (boundary ++ crlf) = true)
      (hpart : decodePart body (pos + (boundary ++ crlf).length) parts = .ok (p, next))
      (hrest : Decodes body boundary next (parts ++ [p]) out) :
      Decodes body boundary pos parts out

variable {body boundary : Bytes} {pos : Nat} {parts out : List BatchPart} {b : Bytes}
  {p : BatchPart} {s : Bytes}

theorem decodes_of_decodeParts (h : decodeParts body boundary pos parts = .ok out) :
    Decodes body boundary pos parts out := by
  fun_induction decodeParts body boundary pos parts with
  | case1 => cases h
  | case2 pos parts hlt hfinal hend =>
    cases h
    exact .final hfinal (not_not.mp hend)
  | case3 => cases h
  | case4 => cases h
  | case5 pos parts hlt hfinal hstart p next hpart ih =>
    exact .part (by simpa using hstart) hpart (ih h)
  | case6 => cases h

/-! ## What was read -/

/-- The strings are disjoint slices of `b`, in order, from `pos` on. -/
def SlicesFrom (b : Bytes) : Nat → List Bytes → Prop
  | _, [] => True
  | pos, x :: xs => ∃ off, pos ≤ off ∧ off + x.length ≤ b.length
      ∧ (b.drop off).take x.length = x ∧ SlicesFrom b (off + x.length) xs

theorem SlicesFrom.mono {pos' : Nat} (hle : pos ≤ pos') :
    ∀ {xs : List Bytes}, SlicesFrom b pos' xs → SlicesFrom b pos xs
  | [], _ => trivial
  | _ :: _, ⟨off, hoff, hlen, htake, hrest⟩ =>
    ⟨off, le_trans hle hoff, hlen, htake, hrest⟩

theorem decodePart_slice {next : Nat} (h : decodePart body pos parts = .ok (p, next)) :
    ∃ off, pos ≤ off ∧ off + p.payload.length ≤ next ∧ next ≤ body.length
      ∧ (body.drop off).take p.payload.length = p.payload := by
  have hlt := decodePart_lt h
  obtain ⟨headerEnd, n, hfind, -, -, -, hpay, -, rfl⟩ := decodePart_eq_ok h
  have hpos := le_findFrom hfind
  have hsize : p.payload.length = n.toNat := by
    rw [hpay, length_take, length_drop]
    omega
  refine ⟨headerEnd + 4, by omega, by omega, hlt.2, ?_⟩
  rw [hsize, ← hpay]

theorem Decodes.slices (h : Decodes body boundary pos parts out) :
    ∃ new, out = parts ++ new ∧ SlicesFrom body pos (new.map (·.payload)) := by
  induction h with
  | final hstart hend => exact ⟨[], (append_nil _).symm, trivial⟩
  | @part pos next parts out p hstart hpart hrest ih =>
    obtain ⟨new, rfl, hnew⟩ := ih
    obtain ⟨off, hoff, hend, hbody, htake⟩ := decodePart_slice hpart
    refine ⟨p :: new, by simp, off, ?_, ?_, htake, hnew.mono hend⟩
    · exact le_trans (Nat.le_add_right ..) hoff
    · exact le_trans hend hbody

theorem Consecutive.concat (h : Consecutive parts) (hp : consecutiveTo parts p.index = true) :
    Consecutive (parts ++ [p]) := by
  refine isChain_append.mpr ⟨h, isChain_singleton p, fun last hlast q hq => ?_⟩
  cases hq
  exact consecutiveTo_iff.mp hp last hlast

theorem Decodes.consecutive (h : Decodes body boundary pos parts out) (hparts : Consecutive parts) :
    Consecutive out := by
  induction h with
  | final hstart hend => exact hparts
  | part hstart hpart hrest ih =>
    obtain ⟨-, -, -, -, -, hcons, -⟩ := decodePart_eq_ok hpart
    exact ih (hparts.concat hcons)

/-! ## Extending the body -/

theorem drop_append_take {n : Nat} (h : pos + n ≤ b.length) :
    ((b ++ s).drop pos).take n = (b.drop pos).take n := by
  rw [drop_append_of_le_length (by omega), take_append_of_le_length (by rw [length_drop]; omega)]

theorem startsWith_drop_append {p : Bytes} (s : Bytes) (hpos : pos ≤ b.length)
    (h : startsWith (b.drop pos) p = true) : startsWith ((b ++ s).drop pos) p = true := by
  rw [drop_append_of_le_length hpos]
  exact startsWith_append_of_startsWith s h

/-- Before a line break that is known to exist, line ends do not move. -/
theorem lineEndAt_append {headerEnd headerPosition : Nat} (s : Bytes)
    (hle : headerPosition ≤ headerEnd) (hlen : headerEnd ≤ b.length)
    (hbreak : crlf <+: b.drop headerEnd) :
    lineEndAt (b ++ s) headerEnd headerPosition = lineEndAt b headerEnd headerPosition := by
  have hhere : crlf <+: (b.drop headerPosition).drop (headerEnd - headerPosition) := by
    rw [drop_drop, Nat.add_sub_cancel' hle]
    exact hbreak
  obtain ⟨i, -, hi⟩ := exists_find_le (by rw [length_drop]; omega) hhere
  have hfind : findFrom crlf b headerPosition = some (i + headerPosition) :=
    findFrom_eq_some_iff.mpr ⟨by omega, i, hi, rfl⟩
  rw [lineEndAt, lineEndAt, findFrom_append_of_some s hfind, hfind]

theorem decodeHeaders_append {headerEnd : Nat} (s : Bytes)
    (hlen : headerEnd ≤ b.length) (hbreak : crlf <+: b.drop headerEnd)
    (headerPosition : Nat) (h : Headers) : decodeHeaders (b ++ s) headerEnd headerPosition h
      = decodeHeaders b headerEnd headerPosition h := by
  fun_induction decodeHeaders b headerEnd headerPosition h with
  | case1 pos h hlt lineEnd line e herr =>
    rw [decodeHeaders, dif_pos hlt]
    dsimp only
    rw [lineEndAt_append s hlt.le hlen hbreak, drop_append_take (by unfold lineEndAt; omega), herr]
  | case2 pos h hlt lineEnd line h' hok ih =>
    rw [decodeHeaders, dif_pos hlt]
    dsimp only
    rw [lineEndAt_append s hlt.le hlen hbreak, drop_append_take (by unfold lineEndAt; omega), hok]
    exact ih
  | case3 pos h hlt => rw [decodeHeaders, dif_neg hlt]

/-- A part read from a body is read alike from every longer body. -/
theorem decodePart_append {next : Nat} (s : Bytes) (h : decodePart b pos parts = .ok (p, next)) :
    decodePart (b ++ s) pos parts = .ok (p, next) := by
  have hnext := (decodePart_lt h).2
  obtain ⟨headerEnd, n, hfind, hhdrs, -, hcons, hpay, hcrlf, rfl⟩ := decodePart_eq_ok h
  obtain ⟨-, k, hk, hkeq⟩ := findFrom_eq_some_iff.mp hfind
  have hbreak : crlf <+: b.drop headerEnd := by
    have hblank := (find_eq_some_iff.mp hk).2.1
    rw [drop_drop, add_comm, ← hkeq] at hblank
    exact (prefix_append crlf crlf).trans hblank
  unfold decodePart
  rw [findFrom_append_of_some s hfind]
  dsimp only
  rw [decodeHeaders_append s (by omega) hbreak, hhdrs]
  dsimp only
  rw [if_neg (by rw [length_append]; omega), hcons,
    startsWith_drop_append s (by omega) hcrlf, drop_append_take (by omega), ← hpay]
  rfl

/-- A boundary line is not a final boundary: behind the boundary comes a
line break, not a dash. -/
theorem not_final_of_boundary {t : Bytes} (h : startsWith t (boundary ++ crlf) = true) :
    startsWith t (boundary ++ str "--\r\n") = false := by
  obtain ⟨u, rfl⟩ := startsWith_iff.mp h
  rw [not_startsWith_iff, append_assoc, prefix_append_right_inj]
  simp [crlf, str]

theorem Decodes.append_error (h : Decodes b boundary pos parts out) (hs : s ≠ []) :
    decodeParts (b ++ s) boundary pos parts
      = .error (str "Unexpected data after final multipart boundary") := by
  have hpos : 0 < s.length := length_pos_iff.mpr hs
  induction h with
  | @final pos parts hstart hend =>
    rw [decodeParts, if_pos (by rw [length_append]; omega),
      if_pos (startsWith_drop_append s (by omega) hstart),
      if_pos (by simp only [length_append] at hend ⊢; omega)]
  | @part pos next parts out p hstart hpart hrest ih =>
    have hlt := decodePart_lt hpart
    have hstart' := startsWith_drop_append s (by omega) hstart
    rw [decodeParts, if_pos (by rw [length_append]; omega),
      not_final_of_boundary hstart', hstart', if_neg Bool.false_ne_true, if_neg (by simp)]
    split
    · rename_i e he
      rw [decodePart_append s hpart] at he
      cases he
    · rename_i q next' hq
      rw [decodePart_append s hpart] at hq
      obtain ⟨rfl, rfl⟩ := Prod.mk.injEq .. |>.mp (Except.ok.inj hq)
      exact ih

/-! ## The whole body -/

variable (h : decodeBatch b = .ok parts)
include h

/-- Everything `decodeBatch` has checked before its loop. -/
theorem decodeBatch_eq_ok :
    ∃ boundaryEnd, find crlf b = some boundaryEnd ∧ startsWith b (str "--") = true
      ∧ ((b.take boundaryEnd).length ≤ 2 || (b.take boundaryEnd).length > 72) = false
      ∧ Decodes b (b.take boundaryEnd) 0 [] parts := by
  unfold decodeBatch at h
  split at h
  · cases h
  · rename_i boundaryEnd hfind
    dsimp only at h
    split_ifs at h with hdash hlen
    exact ⟨boundaryEnd, hfind, by simpa using hdash, by simpa using hlen, decodes_of_decodeParts h⟩

theorem decodeBatch_append (hs : s ≠ []) :
    decodeBatch (b ++ s) = .error (str "Unexpected data after final multipart boundary") := by
  obtain ⟨_, hfind, hdash, hlen, hdec⟩ := decodeBatch_eq_ok h
  have hle := find_add_length_le hfind
  rw [decodeBatch, find_append_of_some s hfind]
  dsimp only
  rw [startsWith_append_of_startsWith s hdash, take_append_of_le_length (by omega), hlen]
  exact hdec.append_error hs

/-- The first line is followed by a line break, so the loop reads at least
one part before it can meet the final boundary. -/
theorem decodeBatch_ne_nil : parts ≠ [] := by
  obtain ⟨boundaryEnd, hfind, -, -, hdec⟩ := decodeBatch_eq_ok h
  obtain ⟨-, hbreak, -⟩ := find_eq_some_iff.mp hfind
  have hstart : startsWith (b.drop 0) (b.take boundaryEnd ++ crlf) = true := by
    refine startsWith_iff.mpr ?_
    conv => rhs; rw [drop_zero, ← take_append_drop boundaryEnd b]
    exact (prefix_append_right_inj _).mpr hbreak
  cases hdec with
  | final hfinal hend =>
    rw [not_final_of_boundary hstart] at hfinal
    cases hfinal
  | part _ hpart hrest =>
    obtain ⟨_, rfl, -⟩ := hrest.slices
    simp

omit h

/-- **Accepted batches.** An accepted body holds at least one part, its
indices count up without wrapping and its payloads are disjoint slices of
the body in order; every proper extension and every proper prefix of it
is rejected. -/
theorem decodeBatch_prefix_free {b : Bytes} {parts : List BatchPart}
    (h : decodeBatch b = .ok parts) :
    (parts ≠ [] ∧ Consecutive parts ∧ SlicesFrom b 0 (parts.map (·.payload)))
      ∧ (∀ s, s ≠ [] → ∃ e, decodeBatch (b ++ s) = .error e)
      ∧ (∀ b' s, s ≠ [] → b = b' ++ s → ∃ e, decodeBatch b' = .error e) := by
  obtain ⟨_, -, -, -, hdec⟩ := decodeBatch_eq_ok h
  obtain ⟨new, hnew, hslices⟩ := hdec.slices
  obtain rfl : parts = new := hnew
  refine ⟨⟨decodeBatch_ne_nil h, hdec.consecutive isChain_nil, hslices⟩,
    fun s hs => ⟨_, decodeBatch_append h hs⟩, ?_⟩
  rintro b' s hs rfl
  cases hb : decodeBatch b' with
  | error e => exact ⟨e, rfl⟩
  | ok parts' =>
    rw [decodeBatch_append hb hs] at h
    cases h

/-- A body with a boundary of its own that ends in dashes, an unknown
header and two parts. -/
def dashedBody : Bytes :=
  str "--batch--\r\nx-opencmw-long-polling-idx: 42\r\nx-unknown: 1\r\n"
    ++ str "x-opencmw-topic: /batch\r\nx-opencmw-service-name: /s\r\n"
    ++ str "content-length: 5\r\n\r\nhello\r\n--batch--\r\nx-opencmw-long-polling-idx: 43\r\n"
    ++ str "x-opencmw-topic: /batch\r\nx-opencmw-service-name: /s\r\n"
    ++ str "content-length: 0\r\n\r\n\r\n--batch----\r\n"

theorem decodeBatch_prefix_free_dashed :
    decodeBatch dashedBody = .ok [⟨42, str "/batch", str "/s", str "hello"⟩,
        ⟨43, str "/batch", str "/s", []⟩]
      ∧ ∀ s, s ≠ [] → ∃ e, decodeBatch (dashedBody ++ s) = .error e := by
  have h : decodeBatch dashedBody = .ok [⟨42, str "/batch", str "/s", str "hello"⟩,
      ⟨43, str "/batch", str "/s", []⟩] := by decide +kernel
  exact ⟨h, (decodeBatch_prefix_free h).2.1⟩

end LongPolling

end OpenCmw
