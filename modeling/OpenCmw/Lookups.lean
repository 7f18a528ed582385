import OpenCmw.Broker
import OpenCmw.RestSession

/-!
# Which service and which handler a request goes to

Both lookups go over all entries and keep the best so far, which is an
`argmin` or `argmax` over the entries that match. The broker keeps the
*shortest* service name that the requested name starts with, as text; the
REST server keeps the *longest* wildcard, after any exact match.

The broker's choice does not depend on the order of the service map
(`bestMatchingService_perm`). It is the service that the path components of
the request name only under `Unambiguous`: a shorter registered name shadows
the registered service itself, and a name that ends in the middle of a
component matches too.
-/

namespace OpenCmw

open List Option

/-! ## Services -/

namespace Pool

/-- The names without their leading slash, shorter ones first. -/
def lengthKey (name : Bytes) : ℕ ×ₗ Bytes := toLex ((removeSlash name).length, removeSlash name)

variable {a b name : Bytes} {names : List Bytes} {serviceName : Bytes}

theorem lessByLength_iff :
    lessByLength (removeSlash a) (removeSlash b) = true ↔ lengthKey a < lengthKey b := by
  unfold lessByLength lengthKey
  rw [Prod.Lex.toLex_lt_toLex]
  split_ifs with h
  · simp [h]
  · simp [h]

/-- The registered names that the requested name starts with. -/
def matchingNames (names : List Bytes) (serviceName : Bytes) : List Bytes :=
  names.filter fun name => startsWith (removeSlash serviceName) (removeSlash name)

theorem matchingNames_concat (names : List Bytes) (name serviceName : Bytes) :
    matchingNames (names ++ [name]) serviceName = matchingNames names serviceName ++
      if startsWith (removeSlash serviceName) (removeSlash name) then [name] else [] := by
  rw [matchingNames, filter_append, filter_singleton, cond_eq_ite]
  rfl

/-- The loop over the service map keeps the least matching name. -/
theorem bestMatchingService_eq (p : Pool) (serviceName : Bytes) :
    p.bestMatchingService serviceName =
      (matchingNames p.services.keys serviceName).argmin lengthKey := by
  have hloop : ∀ entries : List (Sigma fun _ : Bytes => Service),
      entries.foldl (betterService serviceName) none =
        ((matchingNames (entries.map (·.1)) serviceName).argmin lengthKey).map
          fun n => (removeSlash n, n) := by
    intro entries
    induction entries using reverseRecOn with
    | nil => rfl
    | append_singleton entries e ih =>
      rw [foldl_concat, ih, map_append, map_singleton, matchingNames_concat]
      unfold betterService
      dsimp only
      split_ifs with hstarts
      · rw [argmin_concat]
        cases (matchingNames (entries.map (·.1)) serviceName).argmin lengthKey with
        | none => rfl
        | some best =>
          simp only [map_some, lessByLength_iff]
          split_ifs <;> rfl
      · rw [append_nil]
  rw [bestMatchingService, hloop, Option.map_map]
  exact Option.map_id'

/-! ### Valid names -/

theorem removeSlash_of_valid (h : isValidServiceName name = true) :
    name = chr '/' :: removeSlash name := by
  simp only [isValidServiceName, Bool.and_eq_true, startsWith_iff] at h
  obtain ⟨_, rfl⟩ := h.1.1.1
  rfl

theorem mem_matchingNames (hvalid : ∀ name ∈ names, isValidServiceName name = true)
    (hs : isValidServiceName serviceName = true) :
    name ∈ matchingNames names serviceName ↔ name ∈ names ∧ name <+: serviceName := by
  rw [matchingNames, mem_filter]
  refine and_congr_right fun hn => ?_
  conv_rhs => rw [removeSlash_of_valid hs, removeSlash_of_valid (hvalid name hn)]
  rw [prefix_cons_inj, startsWith_iff]

theorem length_le_of_lengthKey_le (ha : isValidServiceName a = true)
    (hb : isValidServiceName b = true) (h : lengthKey a ≤ lengthKey b) : a.length ≤ b.length := by
  rw [removeSlash_of_valid ha, removeSlash_of_valid hb, length_cons, length_cons]
  rcases (Prod.Lex.le_iff.mp h) with hlt | heq
  · exact Nat.succ_le_succ (Nat.le_of_lt hlt)
  · exact Nat.succ_le_succ (Nat.le_of_eq heq.1)

/-! ### Lookup by path components -/

/-- The name is what stands before some '/' of the requested name. -/
def ComponentPrefix (serviceName name : Bytes) : Prop := name ++ str "/" <+: serviceName

/-- What a lookup by path components finds: the service itself, or else the
one with the longest name, if any. -/
def LookedUp (names : List Bytes) (serviceName : Bytes) : Option Bytes → Prop
  | some name => name ∈ names ∧ (name = serviceName ∨ serviceName ∉ names ∧
      ComponentPrefix serviceName name ∧
      ∀ other ∈ names, ComponentPrefix serviceName other → other.length ≤ name.length)
  | none => serviceName ∉ names ∧ ∀ other ∈ names, ¬ComponentPrefix serviceName other

/-- The requested name starts with no registered one; or the shortest it
starts with is the only one that it also names by its path components. -/
def Unambiguous (names : List Bytes) (serviceName : Bytes) : Prop :=
  (∀ name ∈ names, ¬name <+: serviceName) ∨
    ∃ name ∈ names, (name = serviceName ∨ ComponentPrefix serviceName name) ∧
      (∀ other ∈ names, other <+: serviceName → name.length ≤ other.length) ∧
      ∀ other ∈ names, other = serviceName ∨ ComponentPrefix serviceName other → other = name

theorem ComponentPrefix.isPrefix (h : ComponentPrefix serviceName name) : name <+: serviceName :=
  (prefix_append name _).trans h

theorem ComponentPrefix.ne (h : ComponentPrefix serviceName name) : name ≠ serviceName := by
  rintro rfl
  have hlen := h.length_le
  simp [str] at hlen

theorem prefix_of_named
    (h : name = serviceName ∨ ComponentPrefix serviceName name) : name <+: serviceName := by
  rcases h with rfl | h
  · exact prefix_rfl
  · exact h.isPrefix

theorem eq_of_prefix_of_length_le {s : Bytes} (ha : a <+: s) (hb : b <+: s)
    (hab : a.length ≤ b.length) (hba : b.length ≤ a.length) : a = b :=
  (prefix_of_prefix_length_le ha hb hab).eq_of_length (hab.antisymm hba)

/-- A shortest match: what the loop finds, in terms of the names as they are. -/
def Shortest (names : List Bytes) (serviceName : Bytes) : Option Bytes → Prop
  | some name => name ∈ names ∧ name <+: serviceName ∧
      ∀ other ∈ names, other <+: serviceName → name.length ≤ other.length
  | none => ∀ name ∈ names, ¬name <+: serviceName

theorem bestMatchingService_shortest {p : Pool}
    (hvalid : ∀ name ∈ p.services, isValidServiceName name = true)
    (hs : isValidServiceName serviceName = true) :
    Shortest p.services.keys serviceName (p.bestMatchingService serviceName) := by
  rw [bestMatchingService_eq]
  cases hbest : (matchingNames p.services.keys serviceName).argmin lengthKey with
  | none =>
    intro name hn hpre
    have hmem := (mem_matchingNames hvalid hs).mpr ⟨hn, hpre⟩
    rw [argmin_eq_none.mp hbest] at hmem
    cases hmem
  | some best =>
    obtain ⟨hmem, hpre⟩ := (mem_matchingNames hvalid hs).mp (argmin_mem hbest)
    refine ⟨hmem, hpre, fun other ho hother => ?_⟩
    exact length_le_of_lengthKey_le (hvalid best hmem) (hvalid other ho)
      (le_of_mem_argmin ((mem_matchingNames hvalid hs).mpr ⟨ho, hother⟩) hbest)

theorem Shortest.eq_of_perm {names' : List Bytes}
    {r r' : Option Bytes} (hperm : names.Perm names') (h : Shortest names serviceName r)
    (h' : Shortest names' serviceName r') : r' = r := by
  cases r with
  | none =>
    cases r' with
    | none => rfl
    | some name => exact absurd h'.2.1 (h name (hperm.mem_iff.mpr h'.1))
  | some name =>
    cases r' with
    | none => exact absurd h.2.1 (h' name (hperm.mem_iff.mp h.1))
    | some name' =>
      rw [eq_of_prefix_of_length_le h'.2.1 h.2.1
        (h'.2.2 name (hperm.mem_iff.mp h.1) h.2.1) (h.2.2 name' (hperm.mem_iff.mpr h'.1) h'.2.1)]

/-- The order of the service map does not matter. -/
theorem bestMatchingService_perm {p p' : Pool}
    (hvalid : ∀ name ∈ p.services, isValidServiceName name = true)
    (hs : isValidServiceName serviceName = true)
    (hperm : p.services.entries.Perm p'.services.entries) :
    p'.bestMatchingService serviceName = p.bestMatchingService serviceName := by
  have hkeys : p.services.keys.Perm p'.services.keys := hperm.map _
  have hvalid' : ∀ name ∈ p'.services, isValidServiceName name = true :=
    fun name hn => hvalid name (hkeys.mem_iff.mpr hn)
  exact Shortest.eq_of_perm hkeys (bestMatchingService_shortest hvalid hs)
    (bestMatchingService_shortest hvalid' hs)

theorem lookedUp_iff {r : Option Bytes} (h : Shortest names serviceName r) :
    LookedUp names serviceName r ↔ Unambiguous names serviceName := by
  constructor
  · intro hlooked
    cases r with
    | none => exact Or.inl h
    | some name =>
      obtain ⟨hmem, hpre, hshortest⟩ := h
      refine Or.inr ⟨name, hmem, hlooked.2.imp_right fun h => h.2.1, hshortest, ?_⟩
      intro other ho hnamed
      have hother := prefix_of_named hnamed
      refine eq_of_prefix_of_length_le hother hpre ?_ (hshortest other ho hother)
      rcases hlooked.2 with rfl | ⟨hnot, -, hlongest⟩
      · exact hother.length_le
      · rcases hnamed with rfl | hcomp
        · exact absurd ho hnot
        · exact hlongest other ho hcomp
  · rintro (hnone | ⟨name, hmem, hnamed, hshortest, honly⟩)
    · cases r with
      | none =>
        exact ⟨fun hs => hnone serviceName hs prefix_rfl,
          fun other ho hcomp => hnone other ho hcomp.isPrefix⟩
      | some name => exact absurd h.2.1 (hnone name h.1)
    · have hpre := prefix_of_named hnamed
      cases r with
      | none => exact absurd hpre (h name hmem)
      | some best =>
        obtain ⟨hbest, hbestPrefix, hleast⟩ := h
        obtain rfl : best = name := eq_of_prefix_of_length_le hbestPrefix hpre
          (hleast name hmem hpre) (hshortest best hbest hbestPrefix)
        refine ⟨hbest, hnamed.imp_right fun hcomp => ⟨fun hs => ?_, hcomp, ?_⟩⟩
        · exact hcomp.ne (honly serviceName hs (Or.inl rfl)).symm
        · intro other ho hother
          rw [honly other ho (Or.inr hother)]

/-- The lookup goes by path components, in whatever order the map is
iterated, exactly for the names that are unambiguous. -/
theorem bestMatchingService_by_components_iff {p : Pool} {serviceName : Bytes}
    (hvalid : ∀ name ∈ p.services, isValidServiceName name = true)
    (hs : isValidServiceName serviceName = true) :
    ((∀ p' : Pool, p.services.entries.Perm p'.services.entries →
          p'.bestMatchingService serviceName = p.bestMatchingService serviceName) ∧
        LookedUp p.services.keys serviceName (p.bestMatchingService serviceName)) ↔
      Unambiguous p.services.keys serviceName := by
  rw [lookedUp_iff (bestMatchingService_shortest hvalid hs)]
  exact and_iff_right fun p' hperm => bestMatchingService_perm hvalid hs hperm

/-- A pool with services of these names. -/
def withServices (names : List Bytes) : Pool where
  workers := ∅
  services := names.foldl (fun services name => services.tryEmplace name
    (newService { brokerName := str "/broker" } name [])) ∅
  nextAddr := 0

/-- A request for "/a/b" goes to "/a", although "/a/b" is registered, and one
for "/dashboard" goes to "/dash". -/
theorem bestMatchingService_not_by_components :
    (withServices [str "/a", str "/a/b"]).bestMatchingService (str "/a/b") = some (str "/a") ∧
      ¬LookedUp (withServices [str "/a", str "/a/b"]).services.keys (str "/a/b")
        (some (str "/a")) ∧
      (withServices [str "/dash"]).bestMatchingService (str "/dashboard") = some (str "/dash") ∧
      ¬LookedUp (withServices [str "/dash"]).services.keys (str "/dashboard")
        (some (str "/dash")) := by
  refine ⟨by decide, ?_, by decide, ?_⟩
  · rintro ⟨-, heq | ⟨hnot, -⟩⟩
    · exact absurd heq (by decide)
    · exact hnot (by decide)
  · rintro ⟨-, heq | ⟨-, hcomp, -⟩⟩
    · exact absurd heq (by decide)
    · exact absurd ( isPrefixOf_iff_prefix.mpr hcomp) (by decide)

/-- A request for "/dashboard/main" goes to the only service "/dashboard". -/
theorem bestMatchingService_by_components_iff_dashboard :
    LookedUp (withServices [str "/dashboard"]).services.keys (str "/dashboard/main")
      ((withServices [str "/dashboard"]).bestMatchingService (str "/dashboard/main")) := by
  have hkeys : (withServices [str "/dashboard"]).services.keys = [str "/dashboard"] := by decide
  have hvalid : ∀ name ∈ (withServices [str "/dashboard"]).services,
      isValidServiceName name = true := by
    intro name hn
    have hn : name ∈ (withServices [str "/dashboard"]).services.keys := hn
    rw [hkeys, mem_singleton] at hn
    rw [hn]
    decide
  refine ((bestMatchingService_by_components_iff hvalid (by decide)).mpr (Or.inr ?_)).2
  rw [hkeys]
  have hcomp : ComponentPrefix (str "/dashboard/main") (str "/dashboard") :=
    isPrefixOf_iff_prefix.mp (by decide)
  refine ⟨_, mem_singleton_self _, Or.inr hcomp, ?_, ?_⟩
  · intro other ho _
    rw [mem_singleton.mp ho]
  · intro other ho _
    exact mem_singleton.mp ho

end Pool

/-! ## Handlers -/

namespace Rest

/-- A handler for exactly this path. -/
def ExactPath (method path : Bytes) (h : Handler) : Prop := h.method = method ∧ h.path = path

/-- A handler for all paths that start with what stands before its '*'. -/
def Wildcard (method path : Bytes) (h : Handler) : Prop :=
  h.method = method ∧ ∃ start, h.path = start ++ str "*" ∧ start <+: path

instance (method path : Bytes) : DecidablePred (ExactPath method path) := fun _ =>
  inferInstanceAs (Decidable (_ ∧ _))

variable {method path : Bytes}

theorem wildcard_iff {h : Handler} :
    Wildcard method path h ↔ h.method = method ∧ h.path.getLast? = some (chr '*') ∧
      startsWith path h.path.dropLast = true := by
  refine and_congr_right fun _ => ⟨?_, ?_⟩
  · rintro ⟨start, hpath, hstart⟩
    have hdrop : h.path.dropLast = start := by
      rw [hpath]
      exact dropLast_concat
    rw [hdrop, hpath]
    exact ⟨getLast?_concat, startsWith_iff.mpr hstart⟩
  · rintro ⟨hlast, hstart⟩
    exact ⟨h.path.dropLast, (dropLast_append_getLast? _ hlast).symm, startsWith_iff.mp hstart⟩

instance (method path : Bytes) : DecidablePred (Wildcard method path) := fun _ =>
  decidable_of_iff' _ wildcard_iff

theorem argmax_cons_cons {α : Type} (f : α → ℕ) (a b : α) (l : List α) :
    (a :: b :: l).argmax f = if f a < f b then (b :: l).argmax f else (a :: l).argmax f := by
  rw [argmax_cons, argmax_cons f b, argmax_cons f a]
  cases l.argmax f with
  | none => rfl
  | some c =>
    by_cases hbc : f b < f c <;> by_cases hab : f a < f b <;> by_cases hac : f a < f c <;>
      simp [hbc, hab, hac] <;> omega

/-- The loop returns the first exact match; if there is none, the longest
wildcard. -/
theorem findHandler_eq (method path : Bytes) : ∀ (handlers : List Handler) (best : Option Handler),
    findHandler method path handlers best = (handlers.find? fun h => ExactPath method path h).or
        ((best.toList ++ handlers.filter fun h => Wildcard method path h).argmax (·.path.length))
  | [], best => by cases best <;> rfl
  | h :: handlers, best => by
    have ih := findHandler_eq method path handlers
    rw [findHandler]
    by_cases hexact : ExactPath method path h
    · rw [if_neg (not_not.mpr hexact.1), if_pos hexact.2, find?_cons_of_pos (by simpa using hexact)]
      rfl
    · rw [find?_cons_of_neg (by simpa using hexact)]
      by_cases hwild : Wildcard method path h
      · have hnot : h.path ≠ path := fun hpath => hexact ⟨hwild.1, hpath⟩
        obtain ⟨hmeth, hlast, hstart⟩ := wildcard_iff.mp hwild
        rw [if_neg (not_not.mpr hmeth), if_neg hnot, filter_cons_of_pos (by simpa using hwild)]
        cases best with
        | none => rw [if_pos ⟨hlast, hstart, by simp⟩, ih]; rfl
        | some best =>
          have hmax := argmax_cons_cons (fun h : Handler => h.path.length) best h
            (handlers.filter fun h => Wildcard method path h)
          rw [ih, ih, toList_some, toList_some, singleton_append,
            singleton_append, singleton_append, hmax]
          simp only [hlast, hstart, mem_some_iff, forall_eq', true_and]
          split_ifs <;> rfl
      · rw [filter_cons_of_neg (by simpa using hwild), ← ih]
        split_ifs with hmeth hpath hcase
        · rfl
        · exact absurd ⟨not_not.mp hmeth, hpath⟩ hexact
        · exact absurd (wildcard_iff.mpr ⟨not_not.mp hmeth, hcase.1, hcase.2.1⟩) hwild
        · rfl

/-- What the lookup is for: an exact match, or else a wildcard with the
longest path, if any. -/
def Selected (handlers : List Handler) (method path : Bytes) : Option Handler → Prop
  | some h => h ∈ handlers ∧ (ExactPath method path h ∨
      (∀ other ∈ handlers, ¬ExactPath method path other) ∧ Wildcard method path h ∧
        ∀ other ∈ handlers, Wildcard method path other → other.path.length ≤ h.path.length)
  | none => ∀ other ∈ handlers, ¬ExactPath method path other ∧ ¬Wildcard method path other

theorem findHandler_selected (handlers : List Handler) (method path : Bytes) :
    Selected handlers method path (findHandler method path handlers none) := by
  rw [findHandler_eq, toList_none, nil_append]
  cases hexact : handlers.find? fun h => ExactPath method path h with
  | some h =>
    have hfound := find?_some hexact
    exact ⟨mem_of_find?_eq_some hexact, Or.inl (by simpa using hfound)⟩
  | none =>
    have hnone : ∀ other ∈ handlers, ¬ExactPath method path other := by
      simpa using find?_eq_none.mp hexact
    rw [none_or]
    cases hwild : (handlers.filter fun h => Wildcard method path h).argmax (·.path.length) with
    | none =>
      have hnil := filter_eq_nil_iff.mp (argmax_eq_none.mp hwild)
      exact fun other ho => ⟨hnone other ho, by simpa using hnil other ho⟩
    | some h =>
      obtain ⟨hmem, hh⟩ := mem_filter.mp (argmax_mem hwild)
      refine ⟨hmem, Or.inr ⟨hnone, of_decide_eq_true hh, fun other ho hother => ?_⟩⟩
      have hin : other ∈ handlers.filter fun h => Wildcard method path h :=
        mem_filter.mpr ⟨ho, decide_eq_true hother⟩
      exact le_of_mem_argmax (f := fun h : Handler => h.path.length) hin hwild

/-- Two wildcards of one length that both match have the same path. -/
theorem Wildcard.path_eq {h h' : Handler} (hw : Wildcard method path h)
    (hw' : Wildcard method path h') (hlen : h.path.length = h'.path.length) :
    h.path = h'.path := by
  obtain ⟨-, _, hpath, hstart⟩ := hw
  obtain ⟨-, _, hpath', hstart'⟩ := hw'
  rw [hpath, hpath', length_append, length_append, Nat.add_right_cancel_iff] at hlen
  rw [hpath, hpath', (prefix_of_prefix_length_le hstart hstart' hlen.le).eq_of_length hlen]

theorem Selected.eq_of_perm {handlers handlers' : List Handler}
    (hdist : ∀ h ∈ handlers, ∀ h' ∈ handlers, h.method = h'.method → h.path = h'.path → h = h')
    (hperm : handlers.Perm handlers') {r r' : Option Handler}
    (hr : Selected handlers method path r) (hr' : Selected handlers' method path r') : r' = r := by
  cases r with
  | none =>
    cases r' with
    | none => rfl
    | some h' =>
      obtain ⟨hexact, hwild⟩ := hr h' (hperm.mem_iff.mpr hr'.1)
      rcases hr'.2 with h | ⟨-, h, -⟩
      · exact absurd h hexact
      · exact absurd h hwild
  | some h =>
    cases r' with
    | none =>
      obtain ⟨hexact, hwild⟩ := hr' h (hperm.mem_iff.mp hr.1)
      rcases hr.2 with h | ⟨-, h, -⟩
      · exact absurd h hexact
      · exact absurd h hwild
    | some h' =>
      have hmem : h' ∈ handlers := hperm.mem_iff.mpr hr'.1
      have hmem' : h ∈ handlers' := hperm.mem_iff.mp hr.1
      suffices hsame : h'.method = h.method ∧ h'.path = h.path by
        rw [hdist h' hmem h hr.1 hsame.1 hsame.2]
      rcases hr.2 with hexact | ⟨hnone, hwild, hlongest⟩
      · rcases hr'.2 with hexact' | ⟨hnone', -, -⟩
        · exact ⟨hexact'.1.trans hexact.1.symm, hexact'.2.trans hexact.2.symm⟩
        · exact absurd hexact (hnone' h hmem')
      · rcases hr'.2 with hexact' | ⟨-, hwild', hlongest'⟩
        · exact absurd hexact' (hnone h' hmem)
        · exact ⟨hwild'.1.trans hwild.1.symm, hwild'.path_eq hwild
            ((hlongest h' hmem hwild').antisymm (hlongest' h hmem' hwild))⟩

/-- The lookup selects what it should, and if no two handlers have the same
method and path, then their order does not matter. -/
theorem findHandler_correct (handlers : List Handler) (method path : Bytes) :
    Selected handlers method path (findHandler method path handlers none) ∧
      ((handlers.map fun h => (h.method, h.path)).Nodup → ∀ handlers', handlers.Perm handlers' →
          findHandler method path handlers' none = findHandler method path handlers none) := by
  refine ⟨findHandler_selected handlers method path, fun hnd handlers' hperm => ?_⟩
  refine Selected.eq_of_perm (fun h hh h' hh' hmeth hpath => ?_) hperm
    (findHandler_selected handlers method path) (findHandler_selected handlers' method path)
  exact inj_on_of_nodup_map hnd hh hh' (Prod.ext hmeth hpath)

/-- A handler for GET. -/
def getHandler (path : Bytes) : Handler where
  method := str "GET"
  path
  handler := fun _ => { code := 200, headers := [], body := path }

/-- "/assets/test" goes to "/assets/*" also if that comes after "/*". -/
theorem findHandler_correct_assets :
    findHandler (str "GET") (str "/assets/test") [getHandler (str "/*"), getHandler (str "/assets/*")]
        none = some (getHandler (str "/assets/*")) ∧
      findHandler (str "GET") (str "/assets/test")
        [getHandler (str "/assets/*"), getHandler (str "/*")] none =
        some (getHandler (str "/assets/*")) := by
  have hfirst : findHandler (str "GET") (str "/assets/test")
      [getHandler (str "/*"), getHandler (str "/assets/*")] none =
      some (getHandler (str "/assets/*")) := rfl
  refine ⟨hfirst, Eq.trans ?_ hfirst⟩
  exact (findHandler_correct _ _ _).2 (by decide) _ (List.Perm.swap ..)

end Rest

end OpenCmw
