import OpenCmw.Bytes

/-!
# The long-polling batch format

`LongPollingBatch.hpp`: several notifications travel in one multipart
body. Every part starts with a boundary line, has four header lines and
a payload whose length stands in `content-length`; a final boundary
closes the body.

`decodeBatch` does not know the boundary beforehand. It takes the body's
first line for it and then alternates between searching (the end of the
headers) and skipping (the payload, by its declared length). The loop
body is `decodePart`, which returns the part it read and the position
after it; `decodeParts` iterates it from the position reached so far.
-/

namespace OpenCmw

namespace LongPolling

def kIndexParameter : Bytes := str "LongPollingIdx"
def kBatchParameter : Bytes := str "LongPollingBatch"
def kAllAvailable : Bytes := str "AllAvailable"
def kBoundary : Bytes := str "opencmw-long-polling-multipart-boundary"

def crlf : Bytes := str "\r\n"

@[simp] theorem length_crlf : crlf.length = 2 := rfl

structure BatchPart where
  index : UInt64
  topic : Bytes
  serviceName : Bytes
  payload : Bytes
deriving DecidableEq, Repr

/-- A whole decimal `std::uint64_t`, or the text of the error. -/
def parseUnsigned (value name : Bytes) : Except Bytes UInt64 :=
  if value.isEmpty then .error (str "Malformed " ++ name ++ str " ''")
  else
    match fromChars value with
    | some (result, []) => .ok result
    | _ => .error (str "Malformed " ++ name ++ str " '" ++ value ++ str "'")

/-! ## Encoding -/

def idxHeader : Bytes := str "x-opencmw-long-polling-idx: "
def topicHeader : Bytes := str "x-opencmw-topic: "
def serviceNameHeader : Bytes := str "x-opencmw-service-name: "
def contentLengthHeader : Bytes := str "content-length: "

/-- `find_first_of("\r\n") != npos`. -/
def hasLineBreak (s : Bytes) : Bool := s.any fun c => c == 13 || c == 10

/-- One part as `encodeBatch` appends it to the body. -/
def encodePart (p : BatchPart) : Bytes :=
  str "--" ++ kBoundary ++ crlf
    ++ idxHeader ++ toDec p.index.toNat ++ crlf
    ++ topicHeader ++ p.topic ++ crlf
    ++ serviceNameHeader ++ p.serviceName ++ crlf
    ++ contentLengthHeader ++ toDec p.payload.length ++ crlf ++ crlf
    ++ p.payload ++ crlf

variable (parts : List BatchPart)

def encodeBatch : Except Bytes Bytes :=
  if parts.any fun p => hasLineBreak p.topic || hasLineBreak p.serviceName then
    .error (str "Multipart topic and service name must not contain CR or LF")
  else
    .ok (parts.flatMap encodePart ++ (str "--" ++ kBoundary ++ str "--\r\n"))

/-! ## Decoding -/

/-- The four optional header values of a part. -/
structure Headers where
  index : Option UInt64 := none
  topic : Option Bytes := none
  serviceName : Option Bytes := none
  contentLength : Option UInt64 := none
deriving DecidableEq, Repr

/-- One header line; unknown lines are ignored, a repeated one overwrites. -/
def decodeHeader (line : Bytes) (h : Headers) : Except Bytes Headers :=
  if startsWith line idxHeader then do
    let parsed ← parseUnsigned (line.drop idxHeader.length) (str "multipart index")
    return { h with index := some parsed }
  else if startsWith line topicHeader then
    .ok { h with topic := some (line.drop topicHeader.length) }
  else if startsWith line serviceNameHeader then
    .ok { h with serviceName := some (line.drop serviceNameHeader.length) }
  else if startsWith line contentLengthHeader then do
    let parsed ← parseUnsigned (line.drop contentLengthHeader.length)
      (str "multipart content length")
    return { h with contentLength := some parsed }
  else .ok h

variable (body : Bytes)

/-- The end of the header line that starts at `headerPosition`. -/
def lineEndAt (headerEnd headerPosition : Nat) : Nat :=
  min ((findFrom crlf body headerPosition).getD headerEnd) headerEnd

theorem le_lineEndAt {headerEnd headerPosition : Nat} (h : headerPosition < headerEnd) :
    headerPosition ≤ lineEndAt body headerEnd headerPosition := by
  unfold lineEndAt
  cases hf : findFrom crlf body headerPosition with
  | none => simp; omega
  | some i =>
    have := le_findFrom hf
    simp; omega

/-- The header lines between `headerPosition` and `headerEnd`. -/
def decodeHeaders (body : Bytes) (headerEnd headerPosition : Nat) (h : Headers) :
    Except Bytes Headers :=
  if _hlt : headerPosition < headerEnd then
    let lineEnd := lineEndAt body headerEnd headerPosition
    let line := (body.drop headerPosition).take (lineEnd - headerPosition)
    match decodeHeader line h with
    | .error e => .error e
    | .ok h' => decodeHeaders body headerEnd (lineEnd + 2) h'
  else .ok h
termination_by headerEnd - headerPosition
decreasing_by
  have := le_lineEndAt body _hlt
  omega

/-- `parts.empty()` or the index follows the last one without wrapping. -/
def consecutiveTo (index : UInt64) : Bool :=
  match parts.getLast? with
  | none => true
  | some last => !(last.index == uint64Max || index != last.index + 1)

/-- Each index is its predecessor's plus one, in the natural numbers, so
the last `std::uint64_t` has no successor. -/
def Consecutive : Prop :=
  parts.IsChain fun p q => q.index.toNat = p.index.toNat + 1

variable {parts : List BatchPart}

theorem consecutiveTo_iff {index : UInt64} : consecutiveTo parts index = true ↔
      ∀ last ∈ parts.getLast?, index.toNat = last.index.toNat + 1 := by
  unfold consecutiveTo
  split
  · rename_i hnone
    simp [hnone]
  · rename_i last hlast
    have hlt := index.toNat_lt
    have hmax : last.index = uint64Max ↔ last.index.toNat = 2 ^ 64 - 1 := by
      rw [← UInt64.toNat_inj, toNat_uint64Max]
    have hsucc : index = last.index + 1 ↔
        index.toNat = (last.index.toNat + 1) % 2 ^ 64 := by
      rw [← UInt64.toNat_inj, UInt64.toNat_add]
      rfl
    simp only [hlast, Option.mem_some_iff, forall_eq', Bool.not_eq_true', Bool.or_eq_false_iff,
      beq_eq_false_iff_ne, bne_eq_false_iff_eq, ne_eq, hmax, hsucc]
    have := last.index.toNat_lt
    omega

/-- The loop body of `decodeBatch` behind the part boundary, which ends at
`position`: the part read and the position after its closing line break. -/
def decodePart (position : Nat) (parts : List BatchPart) : Except Bytes (BatchPart × Nat) :=
  match findFrom (crlf ++ crlf) body position with
  | none => .error (str "Incomplete multipart headers")
  | some headerEnd =>
    match decodeHeaders body headerEnd position {} with
    | .error e => .error e
    | .ok ⟨some index, some topic, some serviceName, some contentLength⟩ =>
      let position := headerEnd + 4
      if contentLength.toNat > body.length - position then
        .error (str "Multipart payload is shorter than its content length")
      else if !consecutiveTo parts index then
        .error (str "Long-polling batch contains non-consecutive indices")
      else
        let payload := (body.drop position).take contentLength.toNat
        let position := position + contentLength.toNat
        if !startsWith (body.drop position) crlf then
          .error (str "Multipart payload is not followed by a boundary")
        else .ok (⟨index, topic, serviceName, payload⟩, position + 2)
    | .ok _ =>
      .error (str
        "Multipart part is missing its index, topic, service name, or content length")

/-- Everything a successful `decodePart` has checked. -/
theorem decodePart_eq_ok {body : Bytes} {position next : Nat}
    {p : BatchPart} (h : decodePart body position parts = .ok (p, next)) :
    ∃ headerEnd contentLength, findFrom (crlf ++ crlf) body position = some headerEnd
      ∧ decodeHeaders body headerEnd position {}
          = .ok ⟨some p.index, some p.topic, some p.serviceName, some contentLength⟩
      ∧ contentLength.toNat ≤ body.length - (headerEnd + 4) ∧ consecutiveTo parts p.index = true
      ∧ p.payload = (body.drop (headerEnd + 4)).take contentLength.toNat
      ∧ startsWith (body.drop (headerEnd + 4 + contentLength.toNat)) crlf = true
      ∧ next = headerEnd + 4 + contentLength.toNat + 2 := by
  unfold decodePart at h
  split at h
  · cases h
  · rename_i headerEnd hfind
    split at h
    · cases h
    · rename_i index topic serviceName contentLength hhdrs
      dsimp only at h
      split_ifs at h with hlen hcons hcrlf
      obtain ⟨rfl, rfl⟩ := Prod.mk.injEq .. |>.mp (Except.ok.inj h)
      exact ⟨headerEnd, contentLength, hfind, hhdrs, Nat.not_lt.mp hlen,
        by simpa using hcons, rfl, by simpa using hcrlf, rfl⟩
    · cases h

theorem decodePart_lt {body : Bytes} {position next : Nat}
    {p : BatchPart} (h : decodePart body position parts = .ok (p, next)) :
    position < next ∧ next ≤ body.length := by
  obtain ⟨headerEnd, n, hfind, -, -, -, -, hcrlf, rfl⟩ := decodePart_eq_ok h
  have h1 := le_findFrom hfind
  have h2 := (startsWith_iff.mp hcrlf).length_le
  simp only [List.length_drop, length_crlf] at h2
  omega

/-- The loop of `decodeBatch`, at `position` with `parts` read so far. -/
def decodeParts (body boundary : Bytes) (position : Nat) (parts : List BatchPart) :
    Except Bytes (List BatchPart) :=
  if position < body.length then
    if startsWith (body.drop position) (boundary ++ str "--\r\n") then
      if position + (boundary ++ str "--\r\n").length ≠ body.length then
        .error (str "Unexpected data after final multipart boundary")
      else .ok parts
    else if !startsWith (body.drop position) (boundary ++ crlf) then
      .error (str "Missing multipart boundary")
    else
      match _hpart : decodePart body (position + (boundary ++ crlf).length) parts with
      | .error e => .error e
      | .ok (p, next) => decodeParts body boundary next (parts ++ [p])
  else .error (str "Missing final multipart boundary")
termination_by body.length - position
decreasing_by
  have := decodePart_lt _hpart
  omega

def decodeBatch : Except Bytes (List BatchPart) :=
  match find crlf body with
  | none => .error (str "Missing multipart boundary")
  | some boundaryEnd =>
    if !startsWith body (str "--") then .error (str "Missing multipart boundary")
    else
      let boundaryLine := body.take boundaryEnd
      if boundaryLine.length ≤ 2 || boundaryLine.length > 72 then
        .error (str "Invalid multipart boundary length")
      else decodeParts body boundaryLine 0 []

end LongPolling

end OpenCmw
