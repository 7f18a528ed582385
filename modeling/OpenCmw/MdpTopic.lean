import OpenCmw.Topic

/-!
# Building URIs

`URI::UriFactory` and the MDP form of a topic. The factory appends its
query map to the query text in the order in which an `std::unordered_map`
is iterated, which the standard library decides; `Platform` stands for its
decisions, and whatever is proved holds for all of them.

The factory's texts are parsed again by `build`. For a factory that starts
from a service path (`PathOnly`) that parse succeeds and finds the path and
the query the factory had (`PathOnly.build_eq_ok`), so the MDP form of a
topic always exists. The user, password, host and port of the factory, which
only other callers set, follow with `AuthorityFields`.
-/

namespace OpenCmw

open List Nat

/-- What the standard library decides: the order of iteration, and the texts
of its exceptions. -/
structure Platform where
  iterate : QueryMap → List (Bytes × Option Bytes)
  iterate_perm : ∀ m, (iterate m).Perm (m.entries.map fun e => (e.1, e.2))
  what : TopicError → Bytes

/-- Unordered maps are iterated in the order of their entries. -/
def Platform.inOrder : Platform where
  iterate m := m.entries.map fun e => (e.1, e.2)
  iterate_perm _ := List.Perm.refl _
  what _ := str "error"

structure UriFactory where
  scheme : Bytes := []
  authority : Bytes := []
  path : Bytes := []
  query : Bytes := []
  fragment : Bytes := []
  queryMap : QueryMap := ∅

namespace UriFactory

/-- `UriFactory(uri)`. -/
def ofUri {check : UriCheck} (uri : Uri check) : UriFactory :=
  { scheme := uri.parts.scheme, authority := uri.parts.authority, path := uri.parts.path,
    query := uri.parts.query, fragment := uri.parts.fragment }

/-- Both overloads; without a value the parameter is a bare key. -/
def addQueryParameter (f : UriFactory) (key : Bytes) (value : Option Bytes) : UriFactory :=
  { f with queryMap := f.queryMap.insert key value }

def setQuery (f : UriFactory) (queryMap : QueryMap) : UriFactory :=
  { f with query := [], queryMap }

/-- One round of the loop over the query map. -/
def appendParam (query : Bytes) (param : Bytes × Option Bytes) : Bytes :=
  query ++ (if query.isEmpty then [] else str "&") ++ encode param.1 ++ match param.2 with
    | some value => chr '=' :: encode value
    | none => []

/-- The query `toString` writes. -/
def fullQuery (platform : Platform) (f : UriFactory) : Bytes :=
  (platform.iterate f.queryMap).foldl appendParam f.query

def toString (platform : Platform) (f : UriFactory) : Bytes :=
  let query := f.fullQuery platform
  let colon := if f.scheme.isEmpty then [] else str ":"
  let authSlash := if f.authority.isEmpty || startsWith f.authority (str "//") then []
    else str "//"
  let pathSlash := if f.path.isEmpty || startsWith f.path (str "/") || f.authority.isEmpty then []
    else str "/"
  let qMark := if query.isEmpty || startsWith query (str "?") then [] else str "?"
  let hashMark := if f.fragment.isEmpty || startsWith f.fragment (str "#") then [] else str "#"
  f.scheme ++ colon ++ authSlash ++ f.authority ++ pathSlash ++ f.path ++ qMark ++ query
    ++ hashMark ++ encode f.fragment

def build (platform : Platform) (f : UriFactory) : Except UriError (Uri .strict) :=
  Uri.ofBytes .strict (f.toString platform)

end UriFactory

/-! ## Characters the factory writes -/

/-- What `encode` and the separators consist of. -/
def isParamChar (c : UInt8) : Bool := isUnreserved c || (str "%=&").contains c

theorem isParamChar_hexChar (c : UInt8) :
    isParamChar (hexChar (c / 16)) = true ∧ isParamChar (hexChar (c % 16)) = true :=
  forall_uint8 (P := fun c => isParamChar (hexChar (c / 16)) = true ∧
    isParamChar (hexChar (c % 16)) = true) (by decide +kernel) c

variable {c : UInt8} {query path : Bytes}

theorem valid_of_isParamChar (h : isParamChar c = true) :
    validURICharacters.contains c = true ∧ c ≠ chr '?' ∧ c ≠ chr '#' :=
  forall_uint8 (P := fun c => isParamChar c = true →
    validURICharacters.contains c = true ∧ c ≠ chr '?' ∧ c ≠ chr '#') (by decide +kernel) c h

theorem valid_of_isPathChar (h : isPathChar c = true) :
    validURICharacters.contains c = true ∧ c ≠ chr '?' ∧ c ≠ chr '#' :=
  forall_uint8 (P := fun c => isPathChar c = true →
    validURICharacters.contains c = true ∧ c ≠ chr '?' ∧ c ≠ chr '#') (by decide +kernel) c h

theorem isPathChar_of_isServiceNameChar (h : isServiceNameChar c = true) : isPathChar c = true :=
  forall_uint8 (P := fun c => isServiceNameChar c = true → isPathChar c = true)
    (by decide +kernel) c h

theorem isParamChar_of_mem_encode {s : Bytes} (h : c ∈ encode s) : isParamChar c = true := by
  obtain ⟨d, -, hc⟩ := mem_flatMap.mp h
  by_cases hd : isUnreserved d = true
  · rw [if_pos hd, mem_singleton] at hc
    rw [hc, isParamChar, hd, Bool.true_or]
  · rw [if_neg hd] at hc
    simp only [mem_cons, not_mem_nil, or_false] at hc
    rcases hc with rfl | rfl | rfl
    · decide
    · exact (isParamChar_hexChar d).1
    · exact (isParamChar_hexChar d).2

theorem isParamChar_of_mem_appendParam {param : Bytes × Option Bytes}
    (hqry : ∀ c ∈ query, isParamChar c = true)
    (h : c ∈ UriFactory.appendParam query param) : isParamChar c = true := by
  rcases mem_append.mp h with h | h
  · rcases mem_append.mp h with h | h
    · rcases mem_append.mp h with h | h
      · exact hqry c h
      · split_ifs at h
        · cases h
        · rw [mem_singleton.mp h]
          decide
    · exact isParamChar_of_mem_encode h
  · split at h
    · rcases mem_cons.mp h with rfl | h
      · decide
      · exact isParamChar_of_mem_encode h
    · cases h

theorem isParamChar_of_mem_foldl : ∀ {params : List (Bytes × Option Bytes)} {query : Bytes},
    (∀ c ∈ query, isParamChar c = true) →
      ∀ c ∈ params.foldl UriFactory.appendParam query, isParamChar c = true
  | [], _, hqry => hqry
  | param :: params, query, hqry => by
    rw [foldl_cons]
    exact isParamChar_of_mem_foldl fun c hc => isParamChar_of_mem_appendParam hqry hc

/-! ## Paths with a query -/

/-- A path, and a query behind a question mark unless it is empty. -/
def pathQuery (path query : Bytes) : Bytes :=
  path ++ if query.isEmpty then [] else chr '?' :: query

theorem findFirstOf_append {set s t : Bytes} (hs : ∀ c ∈ s, set.contains c = false)
    (ht : ∀ c ∈ t.head?, set.contains c = true) : findFirstOf set (s ++ t) 0 = s.length := by
  have htake : t.takeWhile (fun c => !set.contains c) = [] := by
    cases t with
    | nil => rfl
    | cons c t => rw [takeWhile_cons_of_neg (by simpa using ht c rfl)]
  rw [findFirstOf, drop_zero, takeWhile_append_of_pos (by simpa using hs), htake,
    append_nil, zero_add]

theorem contains_questionHash (h : c ≠ chr '?' ∧ c ≠ chr '#') :
    (str "?#").contains c = false ∧ (str "#").contains c = false := by
  have hq : (str "?#") = [chr '?', chr '#'] := rfl
  have hh : (str "#") = [chr '#'] := rfl
  simp [hq, hh, h.1, h.2]

theorem parsePath_pathQuery (hpath : ∀ c ∈ path, isPathChar c = true) :
    parsePath .strict (pathQuery path query) 0 = .ok (path, path.length) := by
  have hend : findFirstOf (str "?#") (pathQuery path query) 0 = path.length := by
    refine findFirstOf_append (fun c hc => ?_) fun c hc => ?_
    · exact (contains_questionHash (valid_of_isPathChar (hpath c hc)).2).1
    · split_ifs at hc with hemp
      · cases hc
      · obtain rfl : chr '?' = c := by simpa using hc
        decide
  have hlen : path.length ≤ (pathQuery path query).length := by simp [pathQuery]
  have hsub : substr (pathQuery path query) 0 path.length = .ok path := by
    rw [substr, if_pos (zero_le _), drop_zero, pathQuery, take_left]
  have hchecked : checked .strict isPathChar path (.illegalPath path) = .ok () := by
    rw [checked, all_eq_true.mpr hpath]
    rfl
  rw [parsePath, hend, min_eq_left hlen, Nat.sub_zero, hsub]
  exact bind_eq_ok.mpr ⟨path, rfl, bind_eq_ok.mpr ⟨(), hchecked, rfl⟩⟩

/-- Without a '#', the query is all that stands behind the question mark. -/
theorem parseQuery_question (hqry : chr '#' ∉ query) :
    parseQuery (path ++ chr '?' :: query) path.length = (query, []) := by
  have hhash : findFirstOf (str "#") (path ++ chr '?' :: query) path.length
      = (path ++ chr '?' :: query).length := by
    rw [findFirstOf, drop_left, takeWhile_eq_self_iff.mpr, length_append]
    intro c hc
    rcases mem_cons.mp hc with rfl | hc
    · decide
    · have hne : c ≠ chr '#' := fun h => hqry (h ▸ hc)
      have hset : str "#" = [chr '#'] := rfl
      simp [hset, hne]
  rw [parseQuery, hhash, min_self, ← head?_drop, drop_left,
    drop_of_length_le (le_succ _), head?_cons, beq_self_eq_true, if_pos rfl,
    drop_append, drop_of_length_le (le_succ _), nil_append,
    Nat.add_sub_cancel_left, drop_succ_cons, drop_zero, length_append,
    length_cons, Nat.add_sub_cancel_left, Nat.add_sub_cancel, take_length]

theorem parseQuery_pathQuery (hqry : ∀ c ∈ query, isParamChar c = true) :
    parseQuery (pathQuery path query) path.length = (query, []) := by
  cases query with
  | nil =>
    rw [pathQuery, isEmpty_nil, if_pos rfl, append_nil, parseQuery]
    simp [findFirstOf]
  | cons c query =>
    exact parseQuery_question fun hc => (valid_of_isParamChar (hqry _ hc)).2.2 rfl

theorem parseURI_pathQuery (hslash : path.head? = some (chr '/'))
    (hpath : ∀ c ∈ path, isPathChar c = true) (hqry : ∀ c ∈ query, isParamChar c = true) :
    parseURI .strict (pathQuery path query) = .ok { path, query } := by
  have hvalid : (pathQuery path query).all validURICharacters.contains = true := by
    rw [all_eq_true]
    intro c hc
    rcases mem_append.mp hc with hc | hc
    · exact (valid_of_isPathChar (hpath c hc)).1
    · split_ifs at hc
      · cases hc
      · rcases mem_cons.mp hc with rfl | hc
        · decide
        · exact (valid_of_isParamChar (hqry c hc)).1
  have hhead : (pathQuery path query).head? = some (chr '/') := by
    rw [pathQuery, head?_append, hslash]
    rfl
  have hnonempty : (pathQuery path query).isEmpty = false := by
    cases hsource : pathQuery path query with
    | nil => rw [hsource] at hhead; cases hhead
    | cons c cs => rfl
  rw [parseURI, checked, hvalid, hhead, hnonempty]
  refine bind_eq_ok.mpr ⟨(), rfl, ?_⟩
  refine bind_eq_ok.mpr ⟨(path, path.length), parsePath_pathQuery hpath, ?_⟩
  dsimp only
  rw [parseQuery_pathQuery hqry]
  rfl

/-! ## Factories that start from a service path -/

namespace UriFactory

structure PathOnly (f : UriFactory) : Prop where
  scheme : f.scheme = []
  authority : f.authority = []
  fragment : f.fragment = []
  slash : f.path.head? = some (chr '/')
  path : ∀ c ∈ f.path, isPathChar c = true
  query : ∀ c ∈ f.query, isParamChar c = true

variable {f : UriFactory}

theorem PathOnly.addQueryParameter (h : f.PathOnly) (key : Bytes)
    (value : Option Bytes) : (f.addQueryParameter key value).PathOnly :=
  { h with }

theorem PathOnly.fullQuery (h : f.PathOnly) (platform : Platform) :
    ∀ c ∈ f.fullQuery platform, isParamChar c = true := isParamChar_of_mem_foldl h.query

theorem PathOnly.toString_eq (h : f.PathOnly) (platform : Platform) :
    f.toString platform = pathQuery f.path (f.fullQuery platform) := by
  have hmark : startsWith (f.fullQuery platform) (str "?") = false := by
    rw [not_startsWith_iff]
    intro hmark
    have hmem : chr '?' ∈ f.fullQuery platform := hmark.subset mem_cons_self
    exact (valid_of_isParamChar (h.fullQuery platform _ hmem)).2.1 rfl
  rw [toString, h.scheme, h.authority, h.fragment, pathQuery, hmark]
  by_cases hemp : f.fullQuery platform = []
  · simp [hemp, encode]
  · simp [hemp, encode, str, chr]

theorem PathOnly.build_eq_ok (h : f.PathOnly) (platform : Platform) :
    ∃ uri, f.build platform = .ok uri ∧
      uri.parts = { path := f.path, query := f.fullQuery platform } := by
  have hparse := parseURI_pathQuery h.slash h.path (h.fullQuery platform)
  rw [← h.toString_eq platform] at hparse
  exact ⟨⟨f.toString platform, _, hparse⟩, Uri.ofBytes_eq_ok hparse, rfl⟩

/-- A URI that `build` made of such a factory can be extended like it. -/
theorem PathOnly.ofUri {uri : Uri .strict} {path query : Bytes}
    (hparts : uri.parts = { path, query }) (hslash : path.head? = some (chr '/'))
    (hpath : ∀ c ∈ path, isPathChar c = true) (hqry : ∀ c ∈ query, isParamChar c = true) :
    (UriFactory.ofUri uri).PathOnly := by
  constructor <;> simp only [UriFactory.ofUri, hparts]
  · exact hslash
  · exact hpath
  · exact hqry

end UriFactory

/-! ## Topics -/

namespace Topic

def addParam (t : Topic) (key value : Bytes) : Topic :=
  { t with params := t.params.insert key (some value) }

/-- The factory of `toMdpTopic`; the unordered map is made of the ordered one. -/
def mdpFactory (t : Topic) : UriFactory :=
  { path := t.service
    queryMap := t.params.entries.foldl (fun m e => UMap.tryEmplace m e.1 e.2) ∅ }

theorem mdpFactory_pathOnly (t : Topic) : t.mdpFactory.PathOnly := by
  have hvalid := t.valid
  simp only [isValidServiceName, Bool.and_eq_true, all_eq_true] at hvalid
  obtain ⟨⟨⟨hslash, -⟩, -⟩, hchars⟩ := hvalid
  refine ⟨rfl, rfl, rfl, ?_, fun c hc => isPathChar_of_isServiceNameChar (hchars c hc), nofun⟩
  obtain ⟨_, hrest⟩ := startsWith_iff.mp hslash
  show t.service.head? = _
  rw [← hrest]
  rfl

/-- `toMdpTopic()`. -/
def toMdpTopic (platform : Platform) (t : Topic) : Uri .strict :=
  match hbuild : t.mdpFactory.build platform with
  | .ok uri => uri
  | .error e => absurd hbuild (by
      obtain ⟨uri, huri, -⟩ := t.mdpFactory_pathOnly.build_eq_ok platform
      simp [huri])

theorem mdpFactory_build (platform : Platform) (t : Topic) :
    t.mdpFactory.build platform = .ok (t.toMdpTopic platform) := by
  obtain ⟨_, huri, -⟩ := t.mdpFactory_pathOnly.build_eq_ok platform
  rw [toMdpTopic]
  split
  · rename_i uri' hbuild
    exact hbuild
  · rename_i e hbuild
    cases hbuild.symm.trans huri

/-- The path of `toMdpTopic()` is the service, and its query what the factory
wrote. -/
theorem toMdpTopic_parts (platform : Platform) (t : Topic) : (t.toMdpTopic platform).parts
      = { path := t.service, query := t.mdpFactory.fullQuery platform } := by
  obtain ⟨_, huri, hparts⟩ := t.mdpFactory_pathOnly.build_eq_ok platform
  obtain rfl := Except.ok.inj ((t.mdpFactory_build platform).symm.trans huri)
  exact hparts

theorem toMdpTopic_pathOnly (platform : Platform) (t : Topic) :
    (UriFactory.ofUri (t.toMdpTopic platform)).PathOnly := by
  have hfactory := t.mdpFactory_pathOnly
  exact .ofUri (t.toMdpTopic_parts platform) hfactory.slash hfactory.path
    (hfactory.fullQuery platform)

end Topic

end OpenCmw
