import OpenCmw.Span
import OpenCmw.Uri

/-!
# The views of a URI

`parseURI` copies nothing: the five components are views into the URI's own
text. Here is the parser once more, with the positions it computes;
`parseURI_eq_views` says that the parts of a `Uri` are the texts of these
views.

A relaxed parse is meant to lose no character: the views are disjoint, in
order, and cover the text up to the four delimiters (`Covers`). It does so
except where a text starts with neither a scheme nor one of '/', '?', '#':
such a text is taken for an authority and, as if it began with "//", loses
its first two characters (`relaxed_covers_iff`).
-/

namespace OpenCmw

open OpenCmw.Span List Nat

/-! ## Searching for a delimiter -/

theorem le_findFirstOf (set s : Bytes) (pos : Nat) : pos ≤ findFirstOf set s pos :=
  Nat.le_add_right ..

variable {s : Bytes} {pos : Nat} {set : Bytes}

theorem findFirstOf_le (set : Bytes) (h : pos ≤ s.length) : findFirstOf set s pos ≤ s.length := by
  have hlen := (takeWhile_sublist (l := s.drop pos) fun c => !set.contains c).length_le
  rw [length_drop] at hlen
  rw [findFirstOf]
  omega

/-- A search that ends before the end of the text has found something. -/
theorem exists_of_findFirstOf_lt (h : findFirstOf set s pos < s.length) :
    ∃ c ∈ set, s[findFirstOf set s pos]? = some c := by
  have hat : s[findFirstOf set s pos]? =
      ((s.drop pos).dropWhile fun c => !set.contains c).head? := by
    have happ := takeWhile_append_dropWhile (p := fun c => !set.contains c) (l := s.drop pos)
    have hget := congrArg (·[((s.drop pos).takeWhile fun c => !set.contains c).length]?) happ
    rw [getElem?_append_right le_rfl, Nat.sub_self, ← head?_eq_getElem?, getElem?_drop] at hget
    exact hget.symm
  have hsome : s[findFirstOf set s pos]? = some s[findFirstOf set s pos] :=
    getElem?_eq_getElem h
  have hnot := head?_dropWhile_not (fun c => !set.contains c) (s.drop pos)
  rw [← hat, hsome] at hnot
  refine ⟨_, ?_, hsome⟩
  simpa using hnot

/-- A search does not go past what it looks for. -/
theorem findFirstOf_le_of_getElem? {i : Nat} {c : UInt8} (hpos : pos ≤ i)
    (hi : s[i]? = some c) (hc : c ∈ set) : findFirstOf set s pos ≤ i := by
  by_contra hlt
  rw [findFirstOf] at hlt
  have hmem : c ∈ (s.drop pos).takeWhile fun c => !set.contains c := by
    obtain ⟨t, ht⟩ := takeWhile_prefix (l := s.drop pos) fun c => !set.contains c
    have hget := congrArg (·[i - pos]?) ht
    rw [getElem?_append_left (by omega), getElem?_drop, Nat.add_sub_cancel' hpos, hi] at hget
    exact mem_of_getElem? hget
  simpa [hc] using mem_takeWhile_imp hmem

/-- What a search passes over is not what it looks for. -/
theorem notMem_of_lt_findFirstOf {i : Nat} {c : UInt8} (hpos : pos ≤ i)
    (hlt : i < findFirstOf set s pos) (hi : s[i]? = some c) : c ∉ set := fun hc =>
  absurd (findFirstOf_le_of_getElem? hpos hi hc) (by omega)

/-! ## Views -/

/-- The components `parseURI` finds. -/
inductive Component where
  | scheme
  | authority
  | path
  | query
  | fragment
  deriving DecidableEq, Repr

/-- The components as stretches of the text. -/
structure UriViews where
  scheme : Span := {}
  authority : Span := {}
  path : Span := {}
  query : Span := {}
  fragment : Span := {}
  deriving DecidableEq, Repr

namespace UriViews

def parts (v : UriViews) (s : Bytes) : UriParts :=
  { scheme := v.scheme.text s, authority := v.authority.text s, path := v.path.text s,
    query := v.query.text s, fragment := v.fragment.text s }

/-- `source.substr(pos, count)`. -/
def substr (source : Bytes) (pos count : Nat) : Except UriError Span :=
  if pos ≤ source.length then .ok ⟨pos, min count (source.length - pos)⟩ else .error .outOfRange

variable (check : UriCheck)

def parseScheme (pathOnly : Bool) (source : Bytes) : Except UriError (Span × Nat) := do
  if pathOnly then return ({}, 0)
  let schemeSize := findFirstOf (str ":") source 0
  let nextSeparator := findFirstOf (str "/?#") source 0
  if schemeSize < nextSeparator then
    let scheme : Span := ⟨0, schemeSize⟩
    checked check isAlnum (scheme.text source) (.illegalScheme (scheme.text source))
    return (scheme, schemeSize + 1)
  else
    return ({}, 0)

def parseAuthority (pathOnly : Bool) (source : Bytes) (schemeSize : Nat) :
    Except UriError (Span × Nat) := do
  if pathOnly then return ({}, 0)
  let slashes := source.length > schemeSize + 1
    && source[schemeSize]? == some (chr '/') && source[schemeSize + 1]? == some (chr '/')
  let bare := schemeSize == 0 && source[0]? != some (chr '/')
    && source[0]? != some (chr '?') && source[0]? != some (chr '#')
  if slashes || bare then
    let authOffset := schemeSize + 2
    let authEnd := min (findFirstOf (str "/?#") source authOffset) source.length
    let authority ← substr source authOffset (authEnd - authOffset)
    checked check isAuthorityChar (authority.text source)
      (.illegalAuthority (authority.text source))
    return (authority, authEnd)
  else
    return ({}, schemeSize)

def parsePath (source : Bytes) (authEnd : Nat) : Except UriError (Span × Nat) := do
  let pathEnd := min (findFirstOf (str "?#") source authEnd) source.length
  let path ← substr source authEnd (pathEnd - authEnd)
  checked check isPathChar (path.text source) (.illegalPath (path.text source))
  return (path, pathEnd)

def parseQuery (source : Bytes) (pathEnd : Nat) : Span × Span :=
  let queryEnd := min (findFirstOf (str "#") source pathEnd) source.length
  (if source[pathEnd]? == some (chr '?') then ⟨pathEnd + 1, queryEnd - pathEnd - 1⟩ else {},
    if queryEnd < source.length then ⟨queryEnd + 1, source.length - (queryEnd + 1)⟩ else {})

def parse (source : Bytes) : Except UriError UriViews := do
  checked check validURICharacters.contains source
    (.illegalCharacters source (source.takeWhile validURICharacters.contains).length)
  if source.isEmpty then return {}
  let pathOnly := source.head? == some (chr '/')
  let (scheme, schemeSize) ← parseScheme check pathOnly source
  if !pathOnly && schemeSize == source.length then return { scheme }
  let (authority, authEnd) ← parseAuthority check pathOnly source schemeSize
  let (path, pathEnd) ← parsePath check source authEnd
  let (query, fragment) := parseQuery source pathEnd
  return { scheme, authority, path, query, fragment }

variable {check : UriCheck} {s : Bytes}

/-- What a successful parse of a text that is not empty went through. -/
theorem parse_eq_ok {v : UriViews} (hne : s ≠ []) (h : parse check s = .ok v) : ∃ scheme schemeSize,
      parseScheme check (s.head? == some (chr '/')) s = .ok (scheme, schemeSize) ∧
      (schemeSize = s.length ∧ v = { scheme } ∨ ∃ authority authEnd path pathEnd,
          parseAuthority check (s.head? == some (chr '/')) s schemeSize = .ok (authority, authEnd) ∧
          parsePath check s authEnd = .ok (path, pathEnd) ∧
          v = { scheme, authority, path, query := (parseQuery s pathEnd).1,
                fragment := (parseQuery s pathEnd).2 }) := by
  obtain ⟨-, -, h⟩ := bind_eq_ok.mp h
  rw [isEmpty_eq_false_iff.mpr hne, if_neg Bool.false_ne_true] at h
  obtain ⟨⟨scheme, schemeSize⟩, hscheme, h⟩ := bind_eq_ok.mp h
  refine ⟨scheme, schemeSize, hscheme, ?_⟩
  dsimp only at h
  split_ifs at h with hend
  · simp only [Bool.and_eq_true, beq_iff_eq] at hend
    exact .inl ⟨hend.2, (Except.ok.inj h).symm⟩
  · obtain ⟨⟨authority, authEnd⟩, hauth, h⟩ := bind_eq_ok.mp h
    obtain ⟨⟨path, pathEnd⟩, hpath, h⟩ := bind_eq_ok.mp h
    exact .inr ⟨authority, authEnd, path, pathEnd, hauth, hpath, (Except.ok.inj h).symm⟩

theorem substr_eq_ok_iff {pos count : Nat} {v : Span} :
    substr s pos count = .ok v ↔ pos ≤ s.length ∧ v = ⟨pos, min count (s.length - pos)⟩ := by
  unfold substr
  split_ifs with hpos
  · simp [hpos, eq_comm]
  · simp [hpos]

theorem parsePath_eq_ok {authEnd pathEnd : Nat} {path : Span}
    (h : parsePath check s authEnd = .ok (path, pathEnd)) :
    path.start = authEnd ∧ path.stop ≤ s.length := by
  obtain ⟨v, hv, h⟩ := bind_eq_ok.mp h
  obtain ⟨-, -, h⟩ := bind_eq_ok.mp h
  cases h
  obtain ⟨hle, rfl⟩ := substr_eq_ok_iff.mp hv
  refine ⟨rfl, ?_⟩
  rw [stop]
  dsimp only
  omega

theorem parseAuthority_eq_ok {pathOnly : Bool} {schemeSize authEnd : Nat} {authority : Span}
    (h : parseAuthority check pathOnly s schemeSize = .ok (authority, authEnd)) :
    authority.Inside s := by
  unfold parseAuthority at h
  dsimp only at h
  split_ifs at h
  · cases h
    exact inside_of_size_eq_zero rfl
  · obtain ⟨v, hv, h⟩ := bind_eq_ok.mp h
    obtain ⟨-, -, h⟩ := bind_eq_ok.mp h
    cases h
    obtain ⟨hle, rfl⟩ := substr_eq_ok_iff.mp hv
    intro _
    rw [stop]
    dsimp only
    omega
  · cases h
    exact inside_of_size_eq_zero rfl

theorem parseScheme_eq_ok {pathOnly : Bool} {schemeSize : Nat}
    {scheme : Span} (h : parseScheme check pathOnly s = .ok (scheme, schemeSize)) :
    scheme.Inside s := by
  unfold parseScheme at h
  dsimp only at h
  split_ifs at h with hpath hlt
  · cases h
    exact inside_of_size_eq_zero rfl
  · obtain ⟨-, -, h⟩ := bind_eq_ok.mp h
    cases h
    have hle := findFirstOf_le (str "/?#") (zero_le s.length)
    intro _
    rw [stop]
    dsimp only
    omega
  · cases h
    exact inside_of_size_eq_zero rfl

theorem parseQuery_inside (s : Bytes) (pathEnd : Nat) :
    (parseQuery s pathEnd).1.Inside s ∧ (parseQuery s pathEnd).2.Inside s := by
  unfold parseQuery
  dsimp only
  refine ⟨?_, ?_⟩ <;> split_ifs
  · intro _
    rw [stop]
    dsimp only at *
    omega
  · exact inside_of_size_eq_zero rfl
  · intro _
    rw [stop]
    dsimp only
    omega
  · exact inside_of_size_eq_zero rfl

/-- The components, as one family. -/
def span (v : UriViews) : Component → Span
  | .scheme => v.scheme
  | .authority => v.authority
  | .path => v.path
  | .query => v.query
  | .fragment => v.fragment

theorem inside_of_parse {v : UriViews}
    (h : parse check s = .ok v) (c : Component) : (v.span c).Inside s := by
  rcases eq_or_ne s [] with rfl | hne
  · unfold parse at h
    obtain ⟨-, -, h⟩ := bind_eq_ok.mp h
    cases h
    cases c <;> exact inside_of_size_eq_zero rfl
  obtain ⟨scheme, _, hscheme, hrest⟩ := parse_eq_ok hne h
  rcases hrest with ⟨-, rfl⟩ | ⟨authority, _, path, pathEnd, hauth, hpath, rfl⟩
  · cases c with
    | scheme => exact parseScheme_eq_ok hscheme
    | _ => exact inside_of_size_eq_zero rfl
  · cases c with
    | scheme => exact parseScheme_eq_ok hscheme
    | authority => exact parseAuthority_eq_ok hauth
    | path => exact fun _ => (parsePath_eq_ok hpath).2
    | query => exact (parseQuery_inside s pathEnd).1
    | fragment => exact (parseQuery_inside s pathEnd).2

/-! ## The parts are the texts of the views -/

theorem text_default (s : Bytes) : ({} : Span).text s = [] := rfl

theorem substr_eq (s : Bytes) (pos count : Nat) :
    OpenCmw.substr s pos count = (substr s pos count).map (·.text s) := by
  unfold OpenCmw.substr substr
  split_ifs with h
  · simp only [Except.map, text]
    congr 1
    rw [← length_drop, ← take_take, take_length]
  · rfl

theorem parseScheme_eq (check : UriCheck) (pathOnly : Bool) (s : Bytes) :
    OpenCmw.parseScheme check pathOnly s =
      (parseScheme check pathOnly s).map fun r => (r.1.text s, r.2) := by
  unfold OpenCmw.parseScheme parseScheme
  dsimp only
  split_ifs with hpath hlt
  · rfl
  · rw [text, drop_zero]
    cases checked check isAlnum (s.take (findFirstOf (str ":") s 0))
      (.illegalScheme (s.take (findFirstOf (str ":") s 0))) with
    | error e => rfl
    | ok _ => simp [bind, Except.bind, pure, Except.pure, Except.map, text]
  · rfl

theorem parseAuthority_eq (check : UriCheck) (pathOnly : Bool) (s : Bytes) (schemeSize : Nat) :
    OpenCmw.parseAuthority check pathOnly s schemeSize =
      (parseAuthority check pathOnly s schemeSize).map fun r => (r.1.text s, r.2) := by
  unfold OpenCmw.parseAuthority parseAuthority
  dsimp only
  split_ifs with hpath hauth
  · rfl
  · rw [substr_eq]
    cases substr s (schemeSize + 2) _ with
    | error e => rfl
    | ok v =>
      cases hchecked : checked check isAuthorityChar (v.text s) (.illegalAuthority (v.text s)) with
      | error e => simp [bind, Except.bind, Except.map, hchecked]
      | ok _ => simp [bind, Except.bind, pure, Except.pure, Except.map, hchecked]
  · rfl

theorem parsePath_eq (check : UriCheck) (s : Bytes) (authEnd : Nat) :
    OpenCmw.parsePath check s authEnd =
      (parsePath check s authEnd).map fun r => (r.1.text s, r.2) := by
  unfold OpenCmw.parsePath parsePath
  dsimp only
  rw [substr_eq]
  cases substr s authEnd _ with
  | error e => rfl
  | ok v =>
    cases hchecked : checked check isPathChar (v.text s) (.illegalPath (v.text s)) with
    | error e => simp [bind, Except.bind, Except.map, hchecked]
    | ok _ => simp [bind, Except.bind, pure, Except.pure, Except.map, hchecked]

theorem parseQuery_eq (s : Bytes) (pathEnd : Nat) : OpenCmw.parseQuery s pathEnd =
      ((parseQuery s pathEnd).1.text s, (parseQuery s pathEnd).2.text s) := by
  have hfrag (n : Nat) : s.drop (n + 1) =
      (if n < s.length then (⟨n + 1, s.length - (n + 1)⟩ : Span) else {}).text s := by
    split_ifs with h
    · rw [text, ← length_drop, take_length]
    · rw [drop_of_length_le (by omega)]
      rfl
  unfold OpenCmw.parseQuery parseQuery
  dsimp only
  by_cases hqry : (s[pathEnd]? == some (chr '?')) = true
  · rw [if_pos hqry, if_pos hqry]
    exact Prod.ext rfl (hfrag _)
  · rw [if_neg hqry, if_neg hqry]
    exact Prod.ext rfl (hfrag _)

theorem parseURI_eq_views (check : UriCheck) (s : Bytes) :
    parseURI check s = (parse check s).map fun v => v.parts s := by
  unfold parseURI parse
  cases checked check validURICharacters.contains s _ with
  | error e => rfl
  | ok _ =>
    by_cases hemp : s.isEmpty = true
    · simp [bind, Except.bind, pure, Except.pure, Except.map, hemp, parts, text_default]
    · simp only [bind, Except.bind, hemp, if_false, Bool.false_eq_true, parseScheme_eq]
      cases parseScheme check (s.head? == some (chr '/')) s with
      | error e => rfl
      | ok scheme =>
        simp only [Except.map]
        split_ifs with hend
        · rfl
        · rw [parseAuthority_eq]
          cases parseAuthority check (s.head? == some (chr '/')) s scheme.2 with
          | error e => rfl
          | ok authority =>
            simp only [Except.map, parsePath_eq]
            cases parsePath check s authority.2 with
            | error e => rfl
            | ok path => simp only [parseQuery_eq]; rfl

end UriViews

/-! ## A relaxed parse loses no character -/

namespace UriViews

/-- The views are disjoint and in order, and whatever they leave out is the
':' that ends the scheme, the "//" in front of the authority, the '?' in
front of the query or the '#' in front of the fragment. -/
def Covers (v : UriViews) (s : Bytes) : Prop :=
  ∃ schemeEnd authEnd pathEnd queryEnd, Piece s [] v.scheme (str ":") 0 schemeEnd ∧
    Piece s (str "//") v.authority [] schemeEnd authEnd ∧
    Piece s [] v.path [] authEnd pathEnd ∧
    Piece s (str "?") v.query [] pathEnd queryEnd ∧
    Piece s (str "#") v.fragment [] queryEnd s.length

variable {s : Bytes}

theorem singleton_prefix_iff {c : UInt8} {i : Nat} : [c] <+: s.drop i ↔ s[i]? = some c := by
  rw [← head?_drop]
  cases s.drop i with
  | nil => simp
  | cons d t => simp [cons_prefix_cons, eq_comm]

theorem substr_eq_ok {pos stop : Nat} (hpos : pos ≤ stop) (hstop : stop ≤ s.length) :
    substr s pos (stop - pos) = .ok ⟨pos, stop - pos⟩ := by
  rw [substr, if_pos (hpos.trans hstop), min_eq_left (by omega)]

/-- Where the path ends, there is a '?', a '#' or nothing. -/
theorem pathEnd_cases {pathEnd : Nat}
    (h : pathEnd = s.length ∨ ∃ c ∈ str "?#", s[pathEnd]? = some c) :
    s[pathEnd]? = none ∧ pathEnd = s.length ∨ s[pathEnd]? = some (chr '?') ∨
      s[pathEnd]? = some (chr '#') := by
  rcases h with rfl | ⟨c, hc, hat⟩
  · exact .inl ⟨getElem?_eq_none le_rfl, rfl⟩
  · have hset : str "?#" = [chr '?', chr '#'] := rfl
    rw [hset, mem_pair] at hc
    rcases hc with rfl | rfl
    · exact .inr (.inl hat)
    · exact .inr (.inr hat)

/-- A span right behind one character. -/
theorem piece_behind {c : UInt8} {i size stop : Nat} (hat : s[i]? = some c)
    (hstop : (⟨i + 1, size⟩ : Span).stop = stop) (hle : stop ≤ s.length) :
    Piece s [c] ⟨i + 1, size⟩ [] i stop := by
  subst hstop
  exact .present (singleton_prefix_iff.mpr hat) rfl nil_prefix hle

theorem parseQuery_pieces {pathEnd : Nat}
    (h : pathEnd = s.length ∨ ∃ c ∈ str "?#", s[pathEnd]? = some c) :
    ∃ queryEnd, Piece s (str "?") (parseQuery s pathEnd).1 [] pathEnd queryEnd ∧
      Piece s (str "#") (parseQuery s pathEnd).2 [] queryEnd s.length := by
  have hle : pathEnd ≤ s.length := by
    rcases h with rfl | ⟨c, -, hat⟩
    · exact le_rfl
    · exact (List.getElem?_eq_some_iff.mp hat).1.le
  have hend := findFirstOf_le (str "#") hle
  have hfirst := le_findFirstOf (str "#") s pathEnd
  have hfrag : Piece s (str "#") (parseQuery s pathEnd).2 []
      (findFirstOf (str "#") s pathEnd) s.length := by
    rw [parseQuery]
    dsimp only
    rw [min_eq_left hend]
    split_ifs with hlt
    · obtain ⟨c, hc, hat⟩ := exists_of_findFirstOf_lt hlt
      obtain rfl : c = chr '#' := mem_singleton.mp hc
      have hstop : (⟨findFirstOf (str "#") s pathEnd + 1,
          s.length - (findFirstOf (str "#") s pathEnd + 1)⟩ : Span).stop = s.length :=
        stop_mk hlt
      exact piece_behind hat hstop le_rfl
    · rw [le_antisymm hend (not_lt.mp hlt)]
      exact .absent rfl
  refine ⟨_, ?_, hfrag⟩
  rw [parseQuery]
  rw [min_eq_left hend]
  rcases pathEnd_cases h with ⟨hnone, rfl⟩ | hquestion | hhash
  · rw [hnone, if_neg (by decide), le_antisymm hend hfirst]
    exact .absent rfl
  · have hlt : pathEnd < findFirstOf (str "#") s pathEnd := by
      refine lt_of_le_of_ne hfirst fun heq => ?_
      have hlt : findFirstOf (str "#") s pathEnd < s.length := by
        rw [← heq]
        exact (List.getElem?_eq_some_iff.mp hquestion).1
      obtain ⟨c, hc, hat⟩ := exists_of_findFirstOf_lt hlt
      rw [← heq, hquestion, mem_singleton.mp hc] at hat
      exact absurd hat (by decide)
    have hstop : (⟨pathEnd + 1, findFirstOf (str "#") s pathEnd - pathEnd - 1⟩ : Span).stop =
        findFirstOf (str "#") s pathEnd := by
      rw [Nat.sub_sub]
      exact stop_mk hlt
    rw [hquestion, if_pos (by decide)]
    exact piece_behind hquestion hstop hend
  · have hat : findFirstOf (str "#") s pathEnd = pathEnd :=
      le_antisymm (findFirstOf_le_of_getElem? le_rfl hhash mem_cons_self) hfirst
    rw [hhash, if_neg (by decide), hat]
    exact .absent rfl

/-- From the end of the authority on, nothing is lost. -/
theorem parse_relaxed_of_authority {scheme authority : Span} {schemeSize authEnd : Nat}
    (hne : s ≠ [])
    (hscheme : parseScheme .relaxed (s.head? == some (chr '/')) s = .ok (scheme, schemeSize))
    (hmore : s.head? = some (chr '/') ∨ schemeSize ≠ s.length)
    (hauth : parseAuthority .relaxed (s.head? == some (chr '/')) s schemeSize =
      .ok (authority, authEnd))
    (hle : authEnd ≤ s.length) :
    ∃ v, parse .relaxed s = .ok v ∧ v.scheme = scheme ∧ v.authority = authority ∧
      v.path.start = authEnd ∧
      ∃ pathEnd queryEnd, Piece s [] v.path [] authEnd pathEnd ∧
        Piece s (str "?") v.query [] pathEnd queryEnd ∧
        Piece s (str "#") v.fragment [] queryEnd s.length := by
  have hend := findFirstOf_le (str "?#") hle
  have hfirst := le_findFirstOf (str "?#") s authEnd
  obtain ⟨queryEnd, hqry, hfrag⟩ :=
    parseQuery_pieces (hend.eq_or_lt.imp id exists_of_findFirstOf_lt)
  have hpath : parsePath .relaxed s authEnd =
      .ok (⟨authEnd, findFirstOf (str "?#") s authEnd - authEnd⟩,
        findFirstOf (str "?#") s authEnd) := by
    rw [parsePath, min_eq_left hend, substr_eq_ok hfirst hend]
    rfl
  have hbare := Piece.bare
    rfl ((stop_mk hfirst).le.trans hend)
  rw [stop_mk hfirst] at hbare
  refine ⟨{ scheme, authority, path := ⟨authEnd, findFirstOf (str "?#") s authEnd - authEnd⟩,
            query := (parseQuery s (findFirstOf (str "?#") s authEnd)).1,
            fragment := (parseQuery s (findFirstOf (str "?#") s authEnd)).2 },
    ?_, rfl, rfl, rfl, _, queryEnd, hbare, hqry, hfrag⟩
  have hemp : s.isEmpty = false := isEmpty_eq_false_iff.mpr hne
  have hgoes : (!(s.head? == some (chr '/')) && schemeSize == s.length) = false := by
    rcases hmore with hhead | hsize
    · simp [hhead]
    · simp [hsize]
  rw [parse, hemp, if_neg Bool.false_ne_true]
  refine bind_eq_ok.mpr ⟨(), rfl, bind_eq_ok.mpr ⟨_, hscheme, ?_⟩⟩
  dsimp only
  rw [hgoes, if_neg Bool.false_ne_true]
  exact bind_eq_ok.mpr ⟨_, hauth, bind_eq_ok.mpr ⟨_, hpath, rfl⟩⟩

end UriViews

/-- A text of the form `scheme:rest`. -/
def HasScheme (s : Bytes) : Prop :=
  ∃ scheme rest, s = scheme ++ chr ':' :: rest ∧ ∀ c ∈ scheme, c ∉ str "/?#"

theorem colon_lt_separator_iff :
    findFirstOf (str ":") s 0 < findFirstOf (str "/?#") s 0 ↔ HasScheme s := by
  constructor
  · intro hlt
    have hlen := hlt.trans_le (findFirstOf_le (str "/?#") (zero_le s.length))
    obtain ⟨c, hc, hat⟩ := exists_of_findFirstOf_lt hlen
    obtain rfl : c = chr ':' := mem_singleton.mp hc
    refine ⟨s.take (findFirstOf (str ":") s 0), s.drop (findFirstOf (str ":") s 0 + 1), ?_, ?_⟩
    · rw [← (List.getElem?_eq_some_iff.mp hat).2, getElem_cons_drop, take_append_drop]
    · intro c hc
      obtain ⟨i, hi⟩ := mem_iff_getElem?.mp hc
      rw [getElem?_take] at hi
      split_ifs at hi with hlt'
      exact notMem_of_lt_findFirstOf (zero_le i) (hlt'.trans hlt) hi
  · rintro ⟨scheme, rest, rfl, hscheme⟩
    have hcolon : (scheme ++ chr ':' :: rest)[scheme.length]? = some (chr ':') := by simp
    refine (findFirstOf_le_of_getElem? (zero_le _) hcolon mem_cons_self).trans_lt ?_
    by_contra hle
    have hlen : findFirstOf (str "/?#") (scheme ++ chr ':' :: rest) 0 <
        (scheme ++ chr ':' :: rest).length := by
      rw [length_append, length_cons]
      omega
    obtain ⟨c, hc, hat⟩ := exists_of_findFirstOf_lt hlen
    rcases (not_lt.mp hle).lt_or_eq with hlt | heq
    · rw [getElem?_append_left hlt] at hat
      exact hscheme c (mem_of_getElem? hat) hc
    · rw [heq, hcolon] at hat
      cases hat
      exact absurd hc (by decide)

namespace UriViews

variable {s : Bytes}

theorem parseScheme_relaxed (h : HasScheme s) :
    ∃ scheme schemeSize, parseScheme .relaxed false s = .ok (scheme, schemeSize) ∧
      Piece s [] scheme (str ":") 0 schemeSize ∧ 0 < schemeSize ∧ schemeSize ≤ s.length := by
  have hlt := colon_lt_separator_iff.mpr h
  have hlen := hlt.trans_le (findFirstOf_le (str "/?#") (zero_le s.length))
  obtain ⟨c, hc, hat⟩ := exists_of_findFirstOf_lt hlen
  obtain rfl : c = chr ':' := mem_singleton.mp hc
  have hstop : (⟨0, findFirstOf (str ":") s 0⟩ : Span).stop = findFirstOf (str ":") s 0 :=
    zero_add _
  have hafter : str ":" <+: s.drop (⟨0, findFirstOf (str ":") s 0⟩ : Span).stop := by
    rw [hstop]
    exact singleton_prefix_iff.mpr hat
  have hpiece := Piece.present nil_prefix rfl hafter (hstop.le.trans hlen.le)
  refine ⟨_, _, ?_, hpiece, succ_pos _, ?_⟩
  · rw [parseScheme, if_neg Bool.false_ne_true, if_pos hlt, hstop]
    rfl
  · rw [hstop]
    exact hlen

theorem parseScheme_none (check : UriCheck) (h : ¬HasScheme s) :
    parseScheme check false s = .ok ({}, 0) := by
  rw [parseScheme, if_neg Bool.false_ne_true, if_neg (mt colon_lt_separator_iff.mp h)]
  rfl

/-- An authority behind "//", or none. -/
theorem parseAuthority_relaxed {schemeSize : Nat} (hle : schemeSize ≤ s.length)
    (hstart : 0 < schemeSize ∨ ∃ c ∈ s.head?, c ∈ str "/?#") :
    ∃ authority authEnd, parseAuthority .relaxed false s schemeSize = .ok (authority, authEnd) ∧
      Piece s (str "//") authority [] schemeSize authEnd ∧ authEnd ≤ s.length := by
  have hbare : (schemeSize == 0 && s[0]? != some (chr '/') && s[0]? != some (chr '?') &&
      s[0]? != some (chr '#')) = false := by
    rcases hstart with hpos | ⟨c, hc, hmem⟩
    · simp [ne_of_gt hpos]
    · have hset : str "/?#" = [chr '/', chr '?', chr '#'] := rfl
      rw [← head?_eq_getElem?, Option.mem_def.mp hc]
      rw [hset] at hmem
      simp only [mem_cons, not_mem_nil, or_false] at hmem
      rcases hmem with rfl | rfl | rfl <;> simp
  rw [parseAuthority, if_neg Bool.false_ne_true]
  dsimp only
  rw [hbare, Bool.or_false]
  by_cases hslashes : (s.length > schemeSize + 1 && s[schemeSize]? == some (chr '/') &&
      s[schemeSize + 1]? == some (chr '/')) = true
  · rw [if_pos hslashes]
    simp only [Bool.and_eq_true, decide_eq_true_eq, beq_iff_eq] at hslashes
    obtain ⟨⟨hlen, hfirst⟩, hsecond⟩ := hslashes
    have hend := findFirstOf_le (str "/?#") hlen
    have hoffset := le_findFirstOf (str "/?#") s (schemeSize + 2)
    have hbef : str "//" <+: s.drop schemeSize := by
      obtain ⟨hlt, hget⟩ := List.getElem?_eq_some_iff.mp hfirst
      obtain ⟨hlt', hget'⟩ := List.getElem?_eq_some_iff.mp hsecond
      rw [drop_eq_getElem_cons hlt, drop_eq_getElem_cons hlt', hget, hget']
      exact ⟨_, rfl⟩
    have hpiece := Piece.present (v := ⟨schemeSize + 2,
      findFirstOf (str "/?#") s (schemeSize + 2) - (schemeSize + 2)⟩) hbef rfl
      nil_prefix ((stop_mk hoffset).le.trans hend)
    rw [stop_mk hoffset] at hpiece
    refine ⟨_, _, ?_, hpiece, hend⟩
    rw [min_eq_left hend, substr_eq_ok hoffset hend]
    rfl
  · rw [if_neg hslashes]
    exact ⟨{}, schemeSize, rfl, .absent rfl, hle⟩

/-- Any other text is an authority from its third character on. -/
theorem parse_bare {v : UriViews} (hscheme : ¬HasScheme s) (hhead : ∀ c ∈ s.head?, c ∉ str "/?#")
    (hne : s ≠ []) (hparse : parse .relaxed s = .ok v) : v.scheme.size = 0 ∧ 2 ≤ v.path.start := by
  have hpath : (s.head? == some (chr '/')) = false := by
    rw [beq_eq_false_iff_ne]
    exact fun h => hhead _ h (by decide)
  have hbare : (s[0]? != some (chr '/') && s[0]? != some (chr '?') &&
      s[0]? != some (chr '#')) = true := by
    rw [← head?_eq_getElem?]
    simp only [Bool.and_eq_true, bne_iff_ne]
    exact ⟨⟨fun h => hhead _ h (by decide), fun h => hhead _ h (by decide)⟩,
      fun h => hhead _ h (by decide)⟩
  obtain ⟨_, _, hres, hrest⟩ := parse_eq_ok hne hparse
  rw [hpath, parseScheme_none .relaxed hscheme] at hres
  cases hres
  rcases hrest with ⟨hend, -⟩ | ⟨_, _, _, _, hauth, hpathEnd, rfl⟩
  · exact absurd (length_eq_zero_iff.mp hend.symm) hne
  refine ⟨rfl, ?_⟩
  rw [(parsePath_eq_ok hpathEnd).1]
  rw [hpath, parseAuthority, if_neg Bool.false_ne_true] at hauth
  rw [if_pos (by rw [beq_self_eq_true, Bool.true_and, hbare, Bool.or_true])] at hauth
  obtain ⟨_, hview, hauth⟩ := bind_eq_ok.mp hauth
  obtain ⟨-, -, hauth⟩ := bind_eq_ok.mp hauth
  cases hauth
  have hle := (substr_eq_ok_iff.mp hview).1
  have hoffset := le_findFirstOf (str "/?#") s (0 + 2)
  omega

/-- The views of a relaxed parse cover the text exactly if the text is empty,
starts with one of '/', '?', '#' or has a scheme. -/
theorem relaxed_covers_iff (s : Bytes) :
    (∃ v, parse .relaxed s = .ok v ∧ v.Covers s) ↔
      s = [] ∨ (∃ c ∈ s.head?, c ∈ str "/?#") ∨ HasScheme s := by
  constructor
  · rintro ⟨v, hparse, _, authEnd, pathEnd, queryEnd, hscheme, hauth, hpath, hqry, hfrag⟩
    by_contra hno
    obtain ⟨hne, hno⟩ := not_or.mp hno
    obtain ⟨hno, hnoScheme⟩ := not_or.mp hno
    have hhead : ∀ c ∈ s.head?, c ∉ str "/?#" := fun c hc hmem => hno ⟨c, hc, hmem⟩
    obtain ⟨hsize, hstart⟩ := parse_bare hnoScheme hhead hne hparse
    -- The first character belongs to no piece.
    have hfirst {c : UInt8} (hc : c ∈ str "/?#") : s[0]? ≠ some c := by
      rw [← head?_eq_getElem?]
      exact fun h => hhead c h hc
    obtain rfl := hscheme.eq_of_not_prefix fun _ hzero hcolon => by
      rw [Span.stop, hsize, hzero] at hcolon
      obtain ⟨rest, hrest⟩ := hcolon
      exact hnoScheme ⟨[], rest, hrest.symm, forall_mem_nil _⟩
    obtain rfl := hauth.eq_of_not_prefix fun hslashes =>
      absurd (singleton_prefix_iff.mp ((prefix_append [chr '/'] [chr '/']).trans hslashes))
        (hfirst (by decide))
    obtain rfl := hpath.eq_of_not_prefix fun _ hzero => by
      rw [hzero] at hstart
      exact absurd hstart (by simp)
    obtain rfl := hqry.eq_of_not_prefix fun hmark =>
      absurd (singleton_prefix_iff.mp hmark) (hfirst (by decide))
    have hend := hfrag.eq_of_not_prefix fun hmark =>
      absurd (singleton_prefix_iff.mp hmark) (hfirst (by decide))
    exact hne (length_eq_zero_iff.mp hend)
  · intro hstart
    rcases eq_or_ne s [] with rfl | hne
    · exact ⟨{}, rfl, 0, 0, 0, 0, .absent rfl, .absent rfl, .absent rfl, .absent rfl, .absent rfl⟩
    have hstart := hstart.resolve_left hne
    rcases eq_or_ne s.head? (some (chr '/')) with hslash | hslash
    · -- a path only
      have hnoScheme : parseScheme .relaxed (s.head? == some (chr '/')) s = .ok ({}, 0) := by
        rw [hslash]
        rfl
      have hnoAuthority :
          parseAuthority .relaxed (s.head? == some (chr '/')) s 0 = .ok ({}, 0) := by
        rw [hslash]
        rfl
      obtain ⟨v, hparse, hscheme, hauth, -, pathEnd, queryEnd, hpieces⟩ :=
        parse_relaxed_of_authority hne hnoScheme (.inl hslash) hnoAuthority (zero_le _)
      exact ⟨v, hparse, 0, 0, pathEnd, queryEnd, .absent (by rw [hscheme]),
        .absent (by rw [hauth]), hpieces⟩
    have hpath : (s.head? == some (chr '/')) = false := beq_eq_false_iff_ne.mpr hslash
    have hscheme : ∃ scheme schemeSize, parseScheme .relaxed false s = .ok (scheme, schemeSize) ∧
        Span.Piece s [] scheme (str ":") 0 schemeSize ∧ schemeSize ≤ s.length ∧
        (0 < schemeSize ∨ ∃ c ∈ s.head?, c ∈ str "/?#") := by
      by_cases h : HasScheme s
      · obtain ⟨scheme, schemeSize, hok, hpiece, hpos, hle⟩ := parseScheme_relaxed h
        exact ⟨scheme, schemeSize, hok, hpiece, hle, .inl hpos⟩
      · exact ⟨{}, 0, parseScheme_none _ h, .absent rfl, zero_le _, .inr (hstart.resolve_right h)⟩
    obtain ⟨scheme, schemeSize, hok, hpiece, hle, hmore⟩ := hscheme
    rcases eq_or_ne schemeSize s.length with rfl | hend
    · refine ⟨{ scheme }, ?_, s.length, s.length, s.length, s.length, hpiece, .absent rfl,
        .absent rfl, .absent rfl, .absent rfl⟩
      rw [parse, isEmpty_eq_false_iff.mpr hne, hpath]
      refine bind_eq_ok.mpr ⟨(), rfl, bind_eq_ok.mpr ⟨_, hok, ?_⟩⟩
      dsimp only
      rw [if_pos (by simp)]
      rfl
    · obtain ⟨_, authEnd, hauth, hpiece', hle'⟩ := parseAuthority_relaxed hle hmore
      obtain ⟨v, hparse, rfl, rfl, -, pathEnd, queryEnd, hpieces⟩ :=
        parse_relaxed_of_authority hne (hpath ▸ hok) (.inr hend) (hpath ▸ hauth) hle'
      exact ⟨v, hparse, schemeSize, authEnd, pathEnd, queryEnd, hpiece, hpiece', hpieces⟩

/-- A text of one character is not even accepted. -/
theorem single_character_throws : parse .relaxed (str "a") = .error .outOfRange ∧
    ¬∃ v, parse .relaxed (str "a") = .ok v ∧ v.Covers (str "a") := by
  have hparse : parse .relaxed (str "a") = .error .outOfRange := rfl
  refine ⟨hparse, fun ⟨v, hv, _⟩ => ?_⟩
  rw [hparse] at hv
  cases hv

end UriViews

end OpenCmw
