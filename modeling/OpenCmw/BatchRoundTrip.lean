import OpenCmw.LongPollingBatch

/-!
# Batch round trip

What `encodeBatch` writes, `decodeBatch` reads back. The decoder finds
the boundary in the first line, the headers by searching and the payload
by its length, so the argument is one of positions: at the start of an
encoded part the search for the header end stops exactly at the blank
line (`find_blankLine`, because no header line holds a CR), the header
loop sees exactly the four lines that were written
(`decodeHeaders_lines`), and the payload is skipped without being looked
at (`decodePart_encodePart`). `decodeParts_encode` is the induction over
the parts.
-/

namespace OpenCmw

open List

namespace LongPolling

/-! ## Header lines -/

/-- The header lines of an encoded part. -/
def headerLines (p : BatchPart) : List Bytes :=
  [idxHeader ++ toDec p.index.toNat, topicHeader ++ p.topic,
    serviceNameHeader ++ p.serviceName, contentLengthHeader ++ toDec p.payload.length]

/-- Lines, each with its line break. -/
def breakLines (lines : List Bytes) : Bytes := lines.flatMap (· ++ crlf)

theorem breakLines_cons (l : Bytes) (ls : List Bytes) :
    breakLines (l :: ls) = l ++ crlf ++ breakLines ls := flatMap_cons

theorem two_le_length_breakLines (l : Bytes) (ls : List Bytes) :
    l.length + 2 ≤ (breakLines (l :: ls)).length := by
  simp [breakLines_cons, length_crlf]

theorem encodePart_eq (p : BatchPart) :
    encodePart p = str "--" ++ kBoundary ++ crlf
      ++ (breakLines (headerLines p) ++ (crlf ++ (p.payload ++ crlf))) := by
  delta encodePart
  simp only [headerLines, breakLines, flatMap_cons, flatMap_nil, append_assoc, append_nil]

/-- A line is a header line if it is not empty and holds no CR. -/
def IsLine (l : Bytes) : Prop := l ≠ [] ∧ 13 ∉ l

theorem not_startsWith_blankLine {l s : Bytes} (hl : IsLine l) :
    startsWith (crlf ++ (l ++ s)) (crlf ++ crlf) = false := by
  obtain ⟨hne, hcr⟩ := hl
  cases l with
  | nil => exact absurd rfl hne
  | cons c cs =>
    have hc : (13 : UInt8) ≠ c := fun h => hcr (h ▸ mem_cons_self ..)
    simp [startsWith, crlf, str, isPrefixOf, hc]

/-- The first blank line is the one behind the last header line. -/
theorem find_blankLine : ∀ {l : Bytes} {ls : List Bytes} (rest : Bytes), (∀ x ∈ l :: ls, IsLine x) →
      find (crlf ++ crlf) (breakLines (l :: ls) ++ (crlf ++ rest))
        = some ((breakLines (l :: ls)).length - 2)
  | l, [], rest, hl => by
    have hcr := (hl l (mem_cons_self ..)).2
    rw [show breakLines [l] ++ (crlf ++ rest) = l ++ (crlf ++ crlf ++ rest) by
      simp [breakLines]]
    rw [show crlf ++ crlf = 13 :: [10, 13, 10] from rfl, find_cons_append_of_notMem _ hcr,
      find_of_startsWith (startsWith_append (13 :: [10, 13, 10]) rest)]
    simp [breakLines, length_crlf]
  | l, l' :: ls, rest, hl => by
    have hcr := (hl l (mem_cons_self ..)).2
    have hl' := hl l' (by simp)
    have ih := find_blankLine rest fun x hx => hl x (mem_cons_of_mem _ hx)
    have hno : startsWith (crlf ++ (breakLines (l' :: ls) ++ (crlf ++ rest)))
        (crlf ++ crlf) = false := by
      rw [breakLines_cons, append_assoc, append_assoc]
      exact not_startsWith_blankLine hl'
    have hskip : find (crlf ++ crlf) (crlf ++ (breakLines (l' :: ls) ++ (crlf ++ rest)))
        = some ((breakLines (l' :: ls)).length - 2 + 2) := by
      rw [show crlf ++ (breakLines (l' :: ls) ++ (crlf ++ rest))
        = 13 :: 10 :: (breakLines (l' :: ls) ++ (crlf ++ rest)) from rfl] at hno ⊢
      rw [find, hno, if_neg Bool.false_ne_true, find, show startsWith (10 :: _)
        (crlf ++ crlf) = false from rfl, if_neg Bool.false_ne_true, ih]
      rfl
    rw [breakLines_cons, append_assoc, append_assoc,
      show crlf ++ crlf = 13 :: [10, 13, 10] from rfl, find_cons_append_of_notMem _ hcr,
      show (13 :: [10, 13, 10] : Bytes) = crlf ++ crlf from rfl, hskip]
    have := two_le_length_breakLines l' ls
    simp only [Option.map_some, length_append, Option.some.injEq, length_crlf]
    omega

/-- The header loop reads the written lines one by one. -/
theorem decodeHeaders_lines : ∀ {l : Bytes} {ls : List Bytes} (pre rest : Bytes) (h : Headers),
    (∀ x ∈ l :: ls, IsLine x) → decodeHeaders (pre ++ (breakLines (l :: ls) ++ rest))
          (pre.length + ((breakLines (l :: ls)).length - 2)) pre.length h
        = (l :: ls).foldlM (fun h line => decodeHeader line h) h
  | l, ls, pre, rest, h, hl => by
    obtain ⟨hne, hcr⟩ := hl l (mem_cons_self ..)
    have hpos : 0 < l.length := length_pos_iff.mpr hne
    have htwo := two_le_length_breakLines l ls
    have hfind : findFrom crlf (pre ++ (breakLines (l :: ls) ++ rest)) pre.length
        = some (pre.length + l.length) := by
      refine findFrom_append_right pre ?_
      rw [breakLines_cons, append_assoc, append_assoc,
        show crlf = 13 :: [10] from rfl, find_cons_append_of_notMem _ hcr,
        find_of_startsWith (startsWith_append (13 :: [10]) _)]
      simp
    have hend : lineEndAt (pre ++ (breakLines (l :: ls) ++ rest))
        (pre.length + ((breakLines (l :: ls)).length - 2)) pre.length
        = pre.length + l.length := by
      rw [lineEndAt, hfind, Option.getD_some]
      omega
    have hline : ((pre ++ (breakLines (l :: ls) ++ rest)).drop pre.length).take
        (pre.length + l.length - pre.length) = l := by
      rw [drop_left, Nat.add_sub_cancel_left, breakLines_cons, append_assoc,
        append_assoc, take_left]
    rw [decodeHeaders, dif_pos (by omega)]
    dsimp only
    rw [hend, hline, foldlM_cons]
    cases hdec : decodeHeader l h with
    | error e => rfl
    | ok h' =>
      show decodeHeaders _ _ (pre.length + l.length + 2) h'
        = ls.foldlM (fun h line => decodeHeader line h) h'
      cases ls with
      | nil =>
        rw [decodeHeaders, dif_neg (by
          simp [breakLines, length_crlf])]
        rfl
      | cons l' ls =>
        have ih := decodeHeaders_lines (pre ++ l ++ crlf) rest h'
          fun x hx => hl x (mem_cons_of_mem _ hx)
        have htwo' := two_le_length_breakLines l' ls
        rw [← ih, breakLines_cons l]
        congr 1
        · simp
        · simp only [length_append, length_crlf]
          omega
        · simp [length_crlf, Nat.add_assoc]

/-! ## Reading the four headers back -/

theorem parseUnsigned_toDec (n : UInt64) (name : Bytes) :
    parseUnsigned (toDec n.toNat) name = .ok n := by
  simp [parseUnsigned, toDec_ne_nil, fromChars_toDec]

theorem decodeHeader_idx (n : UInt64) (h : Headers) :
    decodeHeader (idxHeader ++ toDec n.toNat) h = .ok { h with index := some n } := by
  rw [decodeHeader, if_pos (startsWith_append _ _), drop_left, parseUnsigned_toDec]
  rfl

theorem decodeHeader_topic (t : Bytes) (h : Headers) :
    decodeHeader (topicHeader ++ t) h = .ok { h with topic := some t } := by
  rw [decodeHeader, if_neg (by simp [startsWith, topicHeader, idxHeader, str]),
    if_pos (startsWith_append _ _), drop_left]

theorem decodeHeader_serviceName (t : Bytes) (h : Headers) :
    decodeHeader (serviceNameHeader ++ t) h = .ok { h with serviceName := some t } := by
  rw [decodeHeader, if_neg (by simp [startsWith, serviceNameHeader, idxHeader, str]),
    if_neg (by simp [startsWith, serviceNameHeader, topicHeader, str]),
    if_pos (startsWith_append _ _), drop_left]

theorem decodeHeader_contentLength (n : UInt64) (h : Headers) :
    decodeHeader (contentLengthHeader ++ toDec n.toNat) h
      = .ok { h with contentLength := some n } := by
  rw [decodeHeader, if_neg (by simp [startsWith, contentLengthHeader, idxHeader, str]),
    if_neg (by simp [startsWith, contentLengthHeader, topicHeader, str]),
    if_neg (by simp [startsWith, contentLengthHeader, serviceNameHeader, str]),
    if_pos (startsWith_append _ _), drop_left, parseUnsigned_toDec]
  rfl

theorem foldlM_headerLines (p : BatchPart) (hsize : p.payload.length < 2 ^ 64) :
    (headerLines p).foldlM (fun h line => decodeHeader line h) {}
      = .ok ⟨some p.index, some p.topic, some p.serviceName,
          some (UInt64.ofNat p.payload.length)⟩ := by
  have hlen : p.payload.length = (UInt64.ofNat p.payload.length).toNat :=
    (UInt64.toNat_ofNat_of_lt' hsize).symm
  simp only [headerLines, foldlM_cons, foldlM_nil, decodeHeader_idx,
    decodeHeader_topic, decodeHeader_serviceName, bind, Except.bind]
  rw [hlen, decodeHeader_contentLength, ← hlen]
  rfl

theorem cr_notMem_toDec (n : Nat) : (13 : UInt8) ∉ toDec n := fun h => by
  have := isDigit_of_mem_toDec h
  simp [isDigit] at this

theorem isLine_headerLines {p : BatchPart} (ht : 13 ∉ p.topic) (hs : 13 ∉ p.serviceName) :
    ∀ l ∈ headerLines p, IsLine l := by
  intro l hl
  simp only [headerLines, mem_cons, not_mem_nil, or_false] at hl
  rcases hl with rfl | rfl | rfl | rfl
  · exact ⟨by simp [idxHeader, str], by simp [idxHeader, str, cr_notMem_toDec]⟩
  · exact ⟨by simp [topicHeader, str], by simp [topicHeader, str, ht]⟩
  · exact ⟨by simp [serviceNameHeader, str], by simp [serviceNameHeader, str, hs]⟩
  · exact ⟨by simp [contentLengthHeader, str], by simp [contentLengthHeader, str, cr_notMem_toDec]⟩

/-! ## Parts -/

theorem consecutiveTo_of_consecutive {acc parts : List BatchPart} {p : BatchPart}
    (h : Consecutive (acc ++ p :: parts)) : consecutiveTo acc p.index = true := by
  obtain ⟨-, -, hlink⟩ := isChain_append.mp h
  exact consecutiveTo_iff.mpr fun last hlast => hlink last hlast p rfl

/-- The decoder reads an encoded part from behind its boundary line and
stops behind its payload's line break. -/
theorem decodePart_encodePart {p : BatchPart} {acc : List BatchPart}
    (ht : 13 ∉ p.topic) (hs : 13 ∉ p.serviceName) (hsize : p.payload.length < 2 ^ 64)
    (hcons : consecutiveTo acc p.index = true) (pre rest : Bytes) :
    decodePart (pre ++ (breakLines (headerLines p) ++ (crlf ++ (p.payload ++ crlf ++ rest))))
        pre.length acc
      = .ok (p, (pre ++ (breakLines (headerLines p) ++ (crlf ++ (p.payload ++ crlf)))).length) := by
  have hlines := isLine_headerLines ht hs
  have htwo := two_le_length_breakLines (idxHeader ++ toDec p.index.toNat)
    [topicHeader ++ p.topic, serviceNameHeader ++ p.serviceName,
      contentLengthHeader ++ toDec p.payload.length]
  change _ ≤ (breakLines (headerLines p)).length at htwo
  have hfind := findFrom_append_right pre
    (find_blankLine (p.payload ++ crlf ++ rest) hlines)
  change findFrom (crlf ++ crlf) (pre ++ (breakLines (headerLines p)
    ++ (crlf ++ (p.payload ++ crlf ++ rest)))) pre.length
    = some (pre.length + ((breakLines (headerLines p)).length - 2)) at hfind
  have hhdrs := decodeHeaders_lines pre (crlf ++ (p.payload ++ crlf ++ rest)) {} hlines
  change decodeHeaders (pre ++ (breakLines (headerLines p)
    ++ (crlf ++ (p.payload ++ crlf ++ rest))))
    (pre.length + ((breakLines (headerLines p)).length - 2)) pre.length {}
    = (headerLines p).foldlM (fun h line => decodeHeader line h) {} at hhdrs
  rw [foldlM_headerLines p hsize] at hhdrs
  have hlen : (UInt64.ofNat p.payload.length).toNat = p.payload.length :=
    UInt64.toNat_ofNat_of_lt' hsize
  have hstart : pre.length + ((breakLines (headerLines p)).length - 2) + 4
      = (pre ++ (breakLines (headerLines p) ++ crlf)).length := by
    simp only [length_append, length_crlf]
    omega
  have hdrop : (pre ++ (breakLines (headerLines p) ++ (crlf ++ (p.payload ++ crlf ++ rest)))).drop
        (pre ++ (breakLines (headerLines p) ++ crlf)).length = p.payload ++ (crlf ++ rest) := by
    rw [show pre ++ (breakLines (headerLines p) ++ (crlf ++ (p.payload ++ crlf ++ rest)))
      = (pre ++ (breakLines (headerLines p) ++ crlf)) ++ (p.payload ++ (crlf ++ rest)) by simp]
    exact drop_left ..
  unfold decodePart
  rw [hfind]
  dsimp only
  rw [hhdrs]
  dsimp only
  rw [hlen, hstart, ← drop_drop, hdrop, take_left, drop_left,
    startsWith_append, hcons, if_neg (by simp; omega)]
  simp [length_crlf, Nat.add_assoc]

/-- The boundary line `decodeBatch` finds in an encoded body. -/
def boundaryLine : Bytes := str "--" ++ kBoundary

theorem length_boundaryLine : boundaryLine.length = 41 := by decide

theorem decodeParts_encode : ∀ {parts acc : List BatchPart} (pre : Bytes),
    Consecutive (acc ++ parts) →
    (∀ p ∈ parts, 13 ∉ p.topic ∧ 13 ∉ p.serviceName ∧ p.payload.length < 2 ^ 64) →
      decodeParts (pre ++ (parts.flatMap encodePart ++ (boundaryLine ++ str "--\r\n")))
          boundaryLine pre.length acc = .ok (acc ++ parts)
  | [], acc, pre, _, _ => by
    have hlen : (boundaryLine ++ str "--\r\n").length = 45 := by decide
    rw [decodeParts, if_pos (by simp [flatMap_nil, hlen])]
    rw [if_pos (by
      rw [drop_left, flatMap_nil, nil_append]
      exact startsWith_iff.mpr prefix_rfl)]
    rw [if_neg (by simp)]
    simp
  | p :: parts, acc, pre, hcons, hok => by
    obtain ⟨ht, hs, hsize⟩ := hok p (mem_cons_self ..)
    have htail : ∀ q ∈ parts, 13 ∉ q.topic ∧ 13 ∉ q.serviceName
        ∧ q.payload.length < 2 ^ 64 := fun q hq => hok q (mem_cons_of_mem _ hq)
    let rest := parts.flatMap encodePart ++ (boundaryLine ++ str "--\r\n")
    have hbody : pre ++ ((p :: parts).flatMap encodePart ++ (boundaryLine ++ str "--\r\n"))
        = (pre ++ (boundaryLine ++ crlf)) ++ (breakLines (headerLines p)
          ++ (crlf ++ (p.payload ++ crlf ++ rest))) := by
      simp [rest, flatMap_cons, encodePart_eq, boundaryLine]
    have hnext : (pre ++ (boundaryLine ++ crlf)) ++ (breakLines (headerLines p)
        ++ (crlf ++ (p.payload ++ crlf))) = pre ++ encodePart p := by
      simp [encodePart_eq, boundaryLine]
    have hdrop : ((pre ++ (boundaryLine ++ crlf)) ++ (breakLines (headerLines p)
        ++ (crlf ++ (p.payload ++ crlf ++ rest)))).drop pre.length
        = boundaryLine ++ crlf ++ (breakLines (headerLines p)
          ++ (crlf ++ (p.payload ++ crlf ++ rest))) := by
      rw [append_assoc, drop_left]
    have hnot : startsWith (boundaryLine ++ crlf ++ (breakLines (headerLines p)
        ++ (crlf ++ (p.payload ++ crlf ++ rest)))) (boundaryLine ++ str "--\r\n") = false := by
      rw [not_startsWith_iff, append_assoc, prefix_append_right_inj]
      simp [crlf, str]
    have hpart := decodePart_encodePart ht hs hsize (consecutiveTo_of_consecutive hcons)
      (pre ++ (boundaryLine ++ crlf)) rest
    rw [hnext, length_append] at hpart
    rw [hbody, decodeParts, if_pos (by simp only [length_append, length_crlf]; omega), hdrop,
      hnot, if_neg Bool.false_ne_true, startsWith_append, if_neg (by simp)]
    split
    · rename_i e he
      rw [hpart] at he
      cases he
    · rename_i q next hq
      rw [hpart] at hq
      obtain ⟨rfl, rfl⟩ := Prod.mk.injEq .. |>.mp (Except.ok.inj hq)
      have ih := @decodeParts_encode parts (acc ++ [p]) (pre ++ encodePart p)
        (by simpa using hcons) htail
      rw [← hbody]
      simpa [flatMap_cons] using ih

theorem not_hasLineBreak {s : Bytes} (h : 13 ∉ s ∧ 10 ∉ s) : ¬hasLineBreak s = true := by
  simp only [hasLineBreak, any_eq_true, Bool.or_eq_true, beq_iff_eq, not_exists, not_and]
  rintro c hc (rfl | rfl)
  · exact h.1 hc
  · exact h.2 hc

section

variable (p : BatchPart) (ps : List BatchPart) (tail : Bytes)

theorem encode_cons_eq : (p :: ps).flatMap encodePart ++ tail
    = boundaryLine ++ (crlf ++ (breakLines (headerLines p) ++ (crlf ++ (p.payload ++ crlf))
      ++ (ps.flatMap encodePart ++ tail))) := by
  simp [flatMap_cons, encodePart_eq, boundaryLine]

theorem find_crlf_encode :
    find crlf ((p :: ps).flatMap encodePart ++ tail) = some boundaryLine.length := by
  rw [encode_cons_eq, show crlf = 13 :: [10] from rfl, find_cons_append_of_notMem _ (by decide),
    find_of_startsWith (startsWith_append (13 :: [10]) _)]
  rfl

theorem startsWith_encode :
    startsWith ((p :: ps).flatMap encodePart ++ tail) (str "--") = true := by
  rw [encode_cons_eq, boundaryLine, append_assoc]
  exact startsWith_append ..

theorem take_encode :
    ((p :: ps).flatMap encodePart ++ tail).take boundaryLine.length = boundaryLine := by
  rw [encode_cons_eq, take_left]

end

/-- **Batch round trip.** For consecutive parts whose names are free of
line breaks, encoding succeeds and decoding the result gives back the
parts, whatever bytes the payloads hold. A payload is an object in
memory, so its size is a `std::size_t`. -/
theorem decodeBatch_encodeBatch {parts : List BatchPart} (hne : parts ≠ [])
    (hidx : Consecutive parts) (hnames : ∀ p ∈ parts, (13 ∉ p.topic ∧ 10 ∉ p.topic)
      ∧ (13 ∉ p.serviceName ∧ 10 ∉ p.serviceName))
    (hsize : ∀ p ∈ parts, p.payload.length < 2 ^ 64) :
    ∃ body, encodeBatch parts = .ok body ∧ decodeBatch body = .ok parts := by
  refine ⟨parts.flatMap encodePart ++ (boundaryLine ++ str "--\r\n"), ?_, ?_⟩
  · have hfree : ¬parts.any fun p => hasLineBreak p.topic || hasLineBreak p.serviceName := by
      simp only [any_eq_true, Bool.or_eq_true, not_exists, not_and, not_or]
      exact fun p hp => ⟨not_hasLineBreak (hnames p hp).1, not_hasLineBreak (hnames p hp).2⟩
    rw [encodeBatch, if_neg hfree]
    rfl
  · obtain ⟨p, ps, rfl⟩ := exists_cons_of_ne_nil hne
    have hparts := @decodeParts_encode (p :: ps) [] [] hidx
      fun q hq => ⟨(hnames q hq).1.1, (hnames q hq).2.1, hsize q hq⟩
    rw [decodeBatch, find_crlf_encode]
    dsimp only
    rw [startsWith_encode, take_encode, length_boundaryLine, if_neg (by simp), if_neg (by simp)]
    simpa only [nil_append, length_nil] using hparts

/-- Two parts, the first with a payload that looks like framing and ends
the batch, the second without a payload. -/
theorem decodeBatch_encodeBatch_framing :
    ∃ body, encodeBatch [⟨42, str "/batch", str "/batch",
        0 :: str "\r\n--opencmw-long-polling-multipart-boundary--\r\n"⟩,
        ⟨43, str "/batch?sample=43", str "/b", []⟩] = .ok body
      ∧ decodeBatch body = .ok [⟨42, str "/batch", str "/batch",
        0 :: str "\r\n--opencmw-long-polling-multipart-boundary--\r\n"⟩,
        ⟨43, str "/batch?sample=43", str "/b", []⟩] :=
  decodeBatch_encodeBatch (by simp) (by simp [Consecutive]) (by decide) (by decide)

end LongPolling

end OpenCmw
