import OpenCmw.Bytes
import OpenCmw.Containers

/-!
# URIs

`opencmw::URI<check>`: the parser of `[scheme:][//authority][/path][?query][#fragment]`,
percent coding and the query map. A `Uri` carries the proof that its parts
are what `parseURI` made of its text, so a URI that the constructor would
have rejected does not exist.

Positions are those of the source: a search that ends in `npos` is the
length of the searched text (`findFirstOf`), which is what the source's
`std::min(..., source.length())` makes of it.
-/

namespace OpenCmw

open List

inductive UriCheck where
  | strict
  | relaxed
  deriving DecidableEq, Repr

/-- What the constructor, `decode` and `queryParamMap` throw, with the
values their messages are formatted from. `indeterminate` is not an
exception: `decode` goes on with a number it never read. -/
inductive UriError where
  /-- "URI contains illegal characters: {} at position {} of {}" -/
  | illegalCharacters (source : Bytes) (position : Nat)
  /-- "URI scheme contains illegal characters: {}" -/
  | illegalScheme (scheme : Bytes)
  /-- "URI authority contains illegal characters: {}" -/
  | illegalAuthority (authority : Bytes)
  /-- "URI path contains illegal characters: {}" -/
  | illegalPath (path : Bytes)
  /-- "URI query contains illegal characters: {}" -/
  | illegalQuery (query : Bytes)
  /-- "additional erroneous character '{}' found after '%' at {} of '{}'" -/
  | erroneousEscape (position : Nat) (s : Bytes)
  /-- `std::out_of_range`, thrown by `substr`. -/
  | outOfRange
  | indeterminate
  deriving DecidableEq, Repr

/-! ## Characters -/

variable (c : UInt8)

def isAlnum : Bool :=
  isDigit c || (chr 'a' ≤ c && c ≤ chr 'z') || (chr 'A' ≤ c && c ≤ chr 'Z')

/-- RFC 3986 section 2.3. -/
def isUnreserved : Bool :=
  isAlnum c || c == chr '-' || c == chr '_' || c == chr '.' || c == chr '~'

def validURICharacters : Bytes :=
  str "ABCDEFGHIJKLMNOPQRSTUVWXYZabcdefghijklmnopqrstuvwxyz0123456789-._~:/?#[]@!$&'()*+,;=%"

/-- The value of a hexadecimal digit (`std::isxdigit`). -/
def hexDigit : Option UInt8 :=
  if isDigit c then some (c - chr '0')
  else if chr 'a' ≤ c && c ≤ chr 'f' then some (c - chr 'a' + 10)
  else if chr 'A' ≤ c && c ≤ chr 'F' then some (c - chr 'A' + 10)
  else none

def isSpace : Bool := c == chr ' ' || (9 ≤ c && c ≤ 13)

/-! ## Percent coding -/

/-- One upper-case hexadecimal digit. -/
def hexChar (n : UInt8) : UInt8 := if n < 10 then chr '0' + n else chr 'A' + (n - 10)

/-- `URI::encode`. -/
def encode (source : Bytes) : Bytes :=
  source.flatMap fun c =>
    if isUnreserved c then [c] else [chr '%', hexChar (c / 16), hexChar (c % 16)]

/-- `iss >> std::hex >> d` on the at most two characters after a '%', as the
byte that is then written. Blanks are skipped and a sign is read; if no
digit follows the number is 0, and if nothing follows it is not written to
at all. -/
def hexByte (digits : Bytes) : Option UInt8 :=
  match digits.dropWhile isSpace with
  | [] => none
  | a :: rest =>
    let next := rest.head?.bind hexDigit
    if a == chr '+' then some (next.getD 0)
    else if a == chr '-' then some (0 - next.getD 0)
    else match hexDigit a with
      | none => some 0
      | some hi =>
        match next with
        | none => some hi
        | some lo => some (16 * hi + lo)

/-- The loop of `decode`, at position `i` of `s`. The character after the
last one, which the check may look at, is no hexadecimal digit. -/
def decodeFrom (check : UriCheck) (s : Bytes) (i : Nat) : Bytes → Except UriError Bytes
  | [] => .ok []
  | c :: cs =>
    if c == chr '%' then
      if check == .strict && ((cs.head?.bind hexDigit).isNone) then
        .error (.erroneousEscape (i + 1) s)
      else
        match hexByte (cs.take 2) with
        | none => .error .indeterminate
        | some d => (decodeFrom check s (i + 3) (cs.drop 2)).map (d :: ·)
    else (decodeFrom check s (i + 1) cs).map (c :: ·)
  termination_by rest => rest.length
  decreasing_by all_goals simp only [length_drop, length_cons]; omega

variable (check : UriCheck)

/-- `URI::decode`. -/
def decode (s : Bytes) : Except UriError Bytes := decodeFrom check s 0 s

/-! ## Parsing -/

/-- The views a URI keeps into its text. -/
structure UriParts where
  scheme : Bytes := []
  authority : Bytes := []
  path : Bytes := []
  query : Bytes := []
  fragment : Bytes := []
  deriving DecidableEq, Repr

/-- `s.substr(pos, count)`. -/
def substr (s : Bytes) (pos count : Nat) : Except UriError Bytes :=
  if pos ≤ s.length then .ok ((s.drop pos).take count) else .error .outOfRange

/-- A check made by `URI<STRICT>` only. -/
def checked (allowed : UInt8 → Bool) (s : Bytes) (e : UriError) : Except UriError Unit :=
  if check == .strict && !s.all allowed then .error e else .ok ()

def isAuthorityChar : Bool := isAlnum c || (str "@:.-_*[]").contains c

def isPathChar : Bool := isAlnum c || (str "/.-_").contains c

/-- The scheme and the position behind its colon; a text that starts with
'/' is a path only. -/
def parseScheme (pathOnly : Bool) (source : Bytes) : Except UriError (Bytes × Nat) := do
  if pathOnly then return ([], 0)
  let schemeSize := findFirstOf (str ":") source 0
  let nextSeparator := findFirstOf (str "/?#") source 0
  if schemeSize < nextSeparator then
    let scheme := source.take schemeSize
    checked check isAlnum scheme (.illegalScheme scheme)
    return (scheme, schemeSize + 1)
  else
    return ([], 0)

/-- The authority and its end. A text that starts with neither a scheme nor
one of '/', '?', '#' is taken for an authority without its first two
characters. -/
def parseAuthority (pathOnly : Bool) (source : Bytes) (schemeSize : Nat) :
    Except UriError (Bytes × Nat) := do
  if pathOnly then return ([], 0)
  let slashes := source.length > schemeSize + 1
    && source[schemeSize]? == some (chr '/') && source[schemeSize + 1]? == some (chr '/')
  let bare := schemeSize == 0 && source[0]? != some (chr '/')
    && source[0]? != some (chr '?') && source[0]? != some (chr '#')
  if slashes || bare then
    let authOffset := schemeSize + 2
    let authEnd := min (findFirstOf (str "/?#") source authOffset) source.length
    let authority ← substr source authOffset (authEnd - authOffset)
    checked check isAuthorityChar authority (.illegalAuthority authority)
    return (authority, authEnd)
  else
    return ([], schemeSize)

/-- The path and its end. -/
def parsePath (source : Bytes) (authEnd : Nat) : Except UriError (Bytes × Nat) := do
  let pathEnd := min (findFirstOf (str "?#") source authEnd) source.length
  let path ← substr source authEnd (pathEnd - authEnd)
  checked check isPathChar path (.illegalPath path)
  return (path, pathEnd)

/-- The query and the fragment. -/
def parseQuery (source : Bytes) (pathEnd : Nat) : Bytes × Bytes :=
  let hash := min (findFirstOf (str "#") source pathEnd) source.length
  if source[pathEnd]? == some (chr '?') then
    ((source.drop (pathEnd + 1)).take (hash - pathEnd - 1), source.drop (hash + 1))
  else ([], source.drop (hash + 1))

def parseURI (source : Bytes) : Except UriError UriParts := do
  checked check validURICharacters.contains source
    (.illegalCharacters source (source.takeWhile validURICharacters.contains).length)
  if source.isEmpty then return {}
  let pathOnly := source.head? == some (chr '/')
  let (scheme, schemeSize) ← parseScheme check pathOnly source
  if !pathOnly && schemeSize == source.length then return { scheme }
  let (authority, authEnd) ← parseAuthority check pathOnly source schemeSize
  let (path, pathEnd) ← parsePath check source authEnd
  let (query, fragment) := parseQuery source pathEnd
  return { scheme, authority, path, query, fragment }

/-! ## What the strict parser accepts, the relaxed one reads the same way -/

theorem checked_relaxed (allowed : UInt8 → Bool) (s : Bytes) (e : UriError) :
    checked .relaxed allowed s e = .ok () := rfl

variable {s : Bytes} {r : Bytes × Nat}

theorem parseScheme_relaxed {pathOnly : Bool}
    (h : parseScheme .strict pathOnly s = .ok r) : parseScheme .relaxed pathOnly s = .ok r := by
  unfold parseScheme at h ⊢
  dsimp only at h ⊢
  split_ifs at h ⊢ with hpath hlt
  · exact h
  · obtain ⟨-, -, hr⟩ := bind_eq_ok.mp h
    exact hr
  · exact h

theorem parseAuthority_relaxed {pathOnly : Bool} {n : Nat}
    (h : parseAuthority .strict pathOnly s n = .ok r) :
    parseAuthority .relaxed pathOnly s n = .ok r := by
  unfold parseAuthority at h ⊢
  dsimp only at h ⊢
  split_ifs at h ⊢ with hpath hauth
  · exact h
  · obtain ⟨authority, hsub, h⟩ := bind_eq_ok.mp h
    obtain ⟨-, -, hr⟩ := bind_eq_ok.mp h
    exact bind_eq_ok.mpr ⟨authority, hsub, hr⟩
  · exact h

theorem parsePath_relaxed {n : Nat}
    (h : parsePath .strict s n = .ok r) : parsePath .relaxed s n = .ok r := by
  obtain ⟨path, hsub, h⟩ := bind_eq_ok.mp h
  obtain ⟨-, -, hr⟩ := bind_eq_ok.mp h
  exact bind_eq_ok.mpr ⟨path, hsub, hr⟩

theorem parseURI_relaxed {parts : UriParts} (h : parseURI .strict s = .ok parts) :
    parseURI .relaxed s = .ok parts := by
  unfold parseURI at h ⊢
  obtain ⟨-, -, h⟩ := bind_eq_ok.mp h
  refine bind_eq_ok.mpr ⟨(), rfl, ?_⟩
  dsimp only at h ⊢
  by_cases hemp : s.isEmpty = true
  · rw [if_pos hemp] at h ⊢
    exact h
  rw [if_neg hemp] at h ⊢
  obtain ⟨scheme, hscheme, h⟩ := bind_eq_ok.mp h
  refine bind_eq_ok.mpr ⟨scheme, parseScheme_relaxed hscheme, ?_⟩
  by_cases hend : (!(s.head? == some (chr '/')) && scheme.2 == s.length) = true
  · rw [if_pos hend] at h ⊢
    exact h
  rw [if_neg hend] at h ⊢
  obtain ⟨authority, hauth, h⟩ := bind_eq_ok.mp h
  obtain ⟨path, hpath, h⟩ := bind_eq_ok.mp h
  exact bind_eq_ok.mpr ⟨authority, parseAuthority_relaxed hauth,
    bind_eq_ok.mpr ⟨path, parsePath_relaxed hpath, h⟩⟩

/-- A URI: its text and the parts `parseURI` found in it. -/
structure Uri (check : UriCheck) where
  str : Bytes
  parts : UriParts
  parsed : parseURI check str = .ok parts

namespace Uri

variable {check : UriCheck}

/-- Comparison is by text. -/
theorem ext_str {u v : Uri check} (h : u.str = v.str) : u = v := by
  obtain ⟨s, p, hp⟩ := u
  obtain ⟨t, q, hq⟩ := v
  obtain rfl : s = t := h
  obtain rfl : p = q := Except.ok.inj (hp.symm.trans hq)
  rfl

instance : DecidableEq (Uri check) := fun u v =>
  decidable_of_iff (u.str = v.str) ⟨ext_str, fun h => h ▸ rfl⟩

/-- `URI<RELAXED>(uri.str())`. -/
def relax (u : Uri .strict) : Uri .relaxed := ⟨u.str, u.parts, parseURI_relaxed u.parsed⟩

/-- The constructor. -/
def ofBytes (check : UriCheck) (s : Bytes) : Except UriError (Uri check) :=
  match h : parseURI check s with
  | .ok parts => .ok ⟨s, parts, h⟩
  | .error e => .error e

theorem ofBytes_eq_ok {s : Bytes} {parts : UriParts} (h : parseURI check s = .ok parts) :
    ofBytes check s = .ok ⟨s, parts, h⟩ := by
  unfold ofBytes
  split
  · rename_i parts' hparts
    obtain rfl := Except.ok.inj (h.symm.trans hparts)
    rfl
  · rename_i e he
    cases h.symm.trans he

theorem str_of_ofBytes {s : Bytes} {u : Uri check} (h : ofBytes check s = .ok u) : u.str = s := by
  unfold ofBytes at h
  split at h
  · exact congrArg Uri.str (Except.ok.inj h).symm
  · cases h

theorem ofBytes_str (u : Uri check) : ofBytes check u.str = .ok u := ofBytes_eq_ok u.parsed

end Uri

/-! ## The query map -/

abbrev QueryMap := UMap Bytes (Option Bytes)

/-- The loop of `queryParamMap` over the rest of the query: a key without
'=' has no value, nor has one whose value is empty and ends the query. The
last key, when nothing follows it, is not decoded. -/
def parseParams (check : UriCheck) (rest : Bytes) (params : QueryMap) :
    Except UriError QueryMap := do
  if rest.isEmpty then return params
  let key := rest.takeWhile fun c => !(str "=;&").contains c
  match _hkey : rest.drop key.length with
  | [] => return params.insert rest none
  | separator :: rest =>
    let key ← decode check key
    if separator != chr '=' then parseParams check rest (params.insert key none)
    else if rest.isEmpty then return params.insert key none
    else
      let value := rest.takeWhile fun c => !(str ";&").contains c
      match _hvalue : rest.drop value.length with
      | [] =>
        let value ← decode check value
        return params.insert key (if value.isEmpty then none else some value)
      | _ :: rest =>
        let value ← decode check value
        parseParams check rest (params.insert key (some value))
  termination_by rest.length
  decreasing_by
    · have := congrArg length _hkey
      simp only [length_drop, length_cons] at this
      omega
    · have hk := congrArg length _hkey
      have hv := congrArg length _hvalue
      simp only [length_drop, length_cons] at hk hv
      omega

def isQueryChar : Bool := isUnreserved c || (str "&;=%:/").contains c

/-- `queryParamMap()` on a URI whose map has not been computed yet. -/
def Uri.queryParamMap {check : UriCheck} (u : Uri check) : Except UriError QueryMap := do
  checked check isQueryChar u.parts.query (.illegalQuery u.parts.query)
  parseParams check u.parts.query ∅

end OpenCmw
