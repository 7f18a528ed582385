import OpenCmw.PercentCoding

/-!
# The order of query parameters

A query is a list of `key[=value]` segments. `queryParamMap` takes another
way for the last segment than for the others: a key that stands alone there
is not decoded, an empty value there is no value, and an empty segment there
is not seen at all. And a '#' ends the query wherever it stands. For segments
that are free of all that (`Segment.Plain`) the map is the same in every
order, and holds the decoded value of each decoded key
(`queryParamMap_of_segments`).
-/

namespace OpenCmw

open List

/-! ## Decoding well-formed texts -/

theorem decodeFrom_relaxed (s : Bytes) : ∀ (rest : Bytes) (i : Nat) {r : Bytes},
    decodeFrom .strict s i rest = .ok r → decodeFrom .relaxed s i rest = .ok r
  | [], i, r, h => by
    rw [decodeFrom] at h ⊢
    exact h
  | c :: cs, i, r, h => by
    rw [decodeFrom] at h ⊢
    by_cases hc : (c == chr '%') = true
    · rw [if_pos hc] at h ⊢
      rw [if_neg (by simp)]
      split_ifs at h with hstrict
      cases hbyte : hexByte (cs.take 2) with
      | none =>
        rw [hbyte] at h
        cases h
      | some d =>
        rw [hbyte] at h
        obtain ⟨t, ht, rfl⟩ := map_eq_ok.mp h
        exact map_eq_ok.mpr ⟨t, decodeFrom_relaxed s (cs.drop 2) (i + 3) ht, rfl⟩
    · rw [if_neg hc] at h ⊢
      obtain ⟨t, ht, rfl⟩ := map_eq_ok.mp h
      exact map_eq_ok.mpr ⟨t, decodeFrom_relaxed s cs (i + 1) ht, rfl⟩
  termination_by rest => rest.length
  decreasing_by all_goals simp only [length_drop, length_cons]; omega

/-- The decoded text, of a text that can be decoded. -/
def decoded (text : Bytes) : Bytes :=
  match decode .relaxed text with
  | .ok t => t
  | .error _ => []

theorem decode_of_wellFormed {text : Bytes} (h : WellFormed text) :
    decode .relaxed text = .ok (decoded text) := by
  obtain ⟨t, ht⟩ := decodeReading_ok 0 text text 0 fun rest hrest => (h rest hrest).firstDigit
  rw [decodeReading_eq rfl] at ht
  have hdecode : decode .relaxed text = .ok t := decodeFrom_relaxed text text 0 ht
  rw [decoded, hdecode]

theorem eq_nil_of_decode {check : UriCheck} {text : Bytes} (h : decode check text = .ok []) :
    text = [] := by
  cases text with
  | nil => rfl
  | cons c cs =>
    rw [decode, decodeFrom] at h
    split_ifs at h
    · split at h
      · cases h
      · obtain ⟨t, -, ht⟩ := map_eq_ok.mp h
        cases ht
    · obtain ⟨t, -, ht⟩ := map_eq_ok.mp h
      cases ht

/-! ## Segments -/

/-- A key, and the value if there is a '='. -/
structure Segment where
  key : Bytes
  value : Option Bytes := none

namespace Segment

def text (seg : Segment) : Bytes :=
  seg.key ++ match seg.value with
    | some value => chr '=' :: value
    | none => []

/-- The separators are not used in the texts, and their escapes are well
formed. -/
structure Valid (seg : Segment) : Prop where
  key : ∀ c ∈ seg.key, isKeyEnd c = false
  value : ∀ v, seg.value = some v → ∀ c ∈ v, isValueEnd c = false
  keyEscapes : WellFormed seg.key
  valueEscapes : ∀ v, seg.value = some v → WellFormed v

/-- No fragment starts in the segment, a key without value is not empty and
has no escapes, and no value is empty. -/
structure Plain (seg : Segment) : Prop where
  noFragment : chr '#' ∉ seg.text
  bareKey : seg.value = none → seg.key ≠ [] ∧ chr '%' ∉ seg.key
  value : seg.value ≠ some []

/-- The parameter that the segment stands for. -/
def param (seg : Segment) : Bytes × Option Bytes := (decoded seg.key, seg.value.map decoded)

variable {seg : Segment}

/-- A segment that is not the last. -/
theorem Valid.parse (h : seg.Valid) (rest : Bytes) (m : QueryMap) :
    parseParams .relaxed (seg.text ++ chr '&' :: rest) m
      = parseParams .relaxed rest (m.insert seg.param.1 seg.param.2) := by
  unfold text param
  cases hval : seg.value with
  | none =>
    rw [append_nil, parseParams_bareKey h.key, decode_of_wellFormed h.keyEscapes]
    rfl
  | some value =>
    rw [append_assoc, cons_append, parseParams_keyText h.key (h.value value hval),
      decode_of_wellFormed h.keyEscapes, decode_of_wellFormed (h.valueEscapes value hval)]
    rfl

/-- The last segment. -/
theorem Valid.parse_last (h : seg.Valid) (hplain : seg.Plain) (m : QueryMap) :
    parseParams .relaxed seg.text m = .ok (m.insert seg.param.1 seg.param.2) := by
  unfold text param
  cases hval : seg.value with
  | none =>
    obtain ⟨hne, hescape⟩ := hplain.bareKey hval
    have hkey : decoded seg.key = seg.key := by
      rw [decoded, decode_eq_self .relaxed hescape]
    rw [append_nil, parseParams_lastKey h.key hne, hkey]
    rfl
  | some value =>
    have hne : value ≠ [] := by
      rintro rfl
      exact hplain.value hval
    have hdecode := decode_of_wellFormed (h.valueEscapes value hval)
    have hsome : decoded value ≠ [] := by
      intro hnil
      rw [hnil] at hdecode
      exact hne (eq_nil_of_decode hdecode)
    rw [parseParams_lastKeyText h.key (h.value value hval) hne,
      decode_of_wellFormed h.keyEscapes, hdecode]
    simp [hsome, Except.bind]

end Segment

/-- The segments, joined by '&'. -/
def joinSegments (segments : List Segment) : Bytes :=
  [chr '&'].intercalate (segments.map Segment.text)

theorem joinSegments_cons_cons (seg seg' : Segment) (segments : List Segment) :
    joinSegments (seg :: seg' :: segments) =
      seg.text ++ chr '&' :: joinSegments (seg' :: segments) := by
  rw [joinSegments, map_cons, map_cons, intercalate_cons_cons, append_assoc]
  rfl

theorem parseParams_joinSegments : ∀ {segments : List Segment} {m : QueryMap},
    (∀ seg ∈ segments, seg.Valid ∧ seg.Plain) → parseParams .relaxed (joinSegments segments) m
        = .ok (insertAll m (segments.map Segment.param))
  | [], m, _ => parseParams_nil .relaxed m
  | [seg], m, h => by
    obtain ⟨hvalid, hplain⟩ := h seg mem_cons_self
    have hjoin : joinSegments [seg] = seg.text := intercalate_singleton
    rw [hjoin, hvalid.parse_last hplain]
    rfl
  | seg :: seg' :: segments, m, h => by
    rw [joinSegments_cons_cons, (h seg mem_cons_self).1.parse,
      parseParams_joinSegments fun s hs => h s (mem_cons_of_mem seg hs)]
    rfl

theorem notMem_joinSegments : ∀ {segments : List Segment},
    (∀ seg ∈ segments, chr '#' ∉ seg.text) → chr '#' ∉ joinSegments segments
  | [], _ => not_mem_nil
  | [seg], h => by
    have hjoin : joinSegments [seg] = seg.text := intercalate_singleton
    rw [hjoin]
    exact h seg mem_cons_self
  | seg :: seg' :: segments, h => by
    rw [joinSegments_cons_cons, mem_append, mem_cons]
    rintro (hmem | heq | hmem)
    · exact h seg mem_cons_self hmem
    · exact absurd heq (by decide)
    · exact notMem_joinSegments (fun s hs => h s (mem_cons_of_mem seg hs)) hmem

/-! ## The map -/

/-- The text of a URI with the path "/p" and this query. -/
def withQuery (query : Bytes) : Bytes := str "/p?" ++ query

theorem parseURI_withQuery {query : Bytes} (h : chr '#' ∉ query) :
    parseURI .relaxed (withQuery query) = .ok { path := str "/p", query } := by
  have htext : withQuery query = str "/p" ++ chr '?' :: query := rfl
  have hend : findFirstOf (str "?#") (withQuery query) 0 = (str "/p").length := by
    rw [htext]
    refine findFirstOf_append (by decide +kernel) fun c hc => ?_
    obtain rfl : chr '?' = c := by simpa using hc
    decide
  have hpath : parsePath .relaxed (withQuery query) 0 = .ok (str "/p", (str "/p").length) := by
    rw [parsePath, hend]
    rfl
  have hhead : (withQuery query).head? = some (chr '/') := rfl
  have hnonempty : (withQuery query).isEmpty = false := rfl
  rw [parseURI, hhead, hnonempty]
  refine bind_eq_ok.mpr ⟨(), rfl, ?_⟩
  rw [if_neg Bool.false_ne_true]
  refine bind_eq_ok.mpr ⟨([], 0), rfl, ?_⟩
  dsimp only
  rw [if_neg (by simp)]
  refine bind_eq_ok.mpr ⟨([], 0), rfl, ?_⟩
  refine bind_eq_ok.mpr ⟨(str "/p", (str "/p").length), hpath, ?_⟩
  rw [htext, parseQuery_question h]
  rfl

/-- `URI<RELAXED>("/p?" + query).queryParamMap()`. -/
def queryMapOf (query : Bytes) : Except UriError QueryMap :=
  (Uri.ofBytes .relaxed (withQuery query)).bind Uri.queryParamMap

theorem queryMapOf_eq {query : Bytes} (h : chr '#' ∉ query) :
    queryMapOf query = parseParams .relaxed query ∅ := by
  rw [queryMapOf, Uri.ofBytes_eq_ok (parseURI_withQuery h)]
  rfl

/-- In every order of the segments, the map holds the decoded value of each
decoded key, and nothing else. -/
theorem queryParamMap_of_segments {segments order : List Segment} (hperm : segments.Perm order)
    (hvalid : ∀ seg ∈ segments, seg.Valid) (hkeys : (segments.map fun seg => decoded seg.key).Nodup)
    (hplain : ∀ seg ∈ segments, seg.Plain) :
    ∃ m, queryMapOf (joinSegments order) = .ok m ∧ ∀ key value, m.lookup key = some value ↔
      ∃ seg ∈ segments, key = decoded seg.key ∧ value = seg.value.map decoded := by
  have hboth : ∀ seg ∈ order, seg.Valid ∧ seg.Plain := fun seg hseg =>
    ⟨hvalid seg (hperm.mem_iff.mpr hseg), hplain seg (hperm.mem_iff.mpr hseg)⟩
  have hnd : ((order.map Segment.param).map (·.1)).Nodup := by
    rw [map_map]
    exact (hperm.map _).nodup_iff.mp hkeys
  refine ⟨insertAll ∅ (order.map Segment.param), ?_, fun key value => ?_⟩
  · rw [queryMapOf_eq (notMem_joinSegments fun seg hseg => (hboth seg hseg).2.noFragment)]
    exact parseParams_joinSegments hboth
  · rw [lookup_insertAll_iff hnd (fun _ _ => rfl), mem_map]
    constructor
    · rintro (⟨seg, hseg, hparam⟩ | hemp)
      · exact ⟨seg, hperm.mem_iff.mpr hseg, (congrArg Prod.fst hparam).symm,
          (congrArg Prod.snd hparam).symm⟩
      · cases hemp
    · rintro ⟨seg, hseg, rfl, rfl⟩
      exact Or.inl ⟨seg, hperm.mem_iff.mp hseg, rfl⟩

/-- A text without '%' is well formed and stands for itself. -/
theorem wellFormed_of_notMem {text : Bytes} (h : chr '%' ∉ text) : WellFormed text := by
  intro rest hrest
  induction text with
  | nil =>
    rw [escapes] at hrest
    cases hrest
  | cons c text ih =>
    obtain ⟨hne, htext⟩ := not_or.mp (mem_cons.not.mp h)
    rw [escapes_other (Ne.symm hne)] at hrest
    exact ih htext hrest

theorem decoded_eq_self {text : Bytes} (h : chr '%' ∉ text) : decoded text = text := by
  rw [decoded, decode_eq_self .relaxed h]

/-- A segment with a '#' is cut there: "a#b" does not enter its key. And the
value of "a=" at the end is no value, which in front of "&b" is the empty
one. -/
theorem queryParamMap_not_of_segments :
    ((∀ seg ∈ [Segment.mk (str "a#b") none], seg.Valid) ∧
      ([Segment.mk (str "a#b") none].map fun seg => decoded seg.key).Nodup ∧
      ∃ m, queryMapOf (joinSegments [Segment.mk (str "a#b") none]) = .ok m ∧
        m.lookup (decoded (str "a#b")) = none) ∧
      (∃ m, queryMapOf (str "b&a=") = .ok m ∧ m.lookup (str "a") = some none) ∧
      ∃ m, queryMapOf (str "a=&b") = .ok m ∧ m.lookup (str "a") = some (some []) := by
  have hparsed : parseURI .relaxed (withQuery (str "a#b")) =
      .ok { path := str "/p", query := str "a", fragment := str "b" } := by decide +kernel
  have hmap : queryMapOf (str "a#b") = parseParams .relaxed (str "a") ∅ := by
    rw [queryMapOf, Uri.ofBytes_eq_ok hparsed]
    rfl
  refine ⟨⟨fun seg hseg => ?_, nodup_singleton _, (∅ : QueryMap).insert (str "a") none, ?_, ?_⟩,
    ⟨((∅ : QueryMap).insert (str "b") none).insert (str "a") none, ?_, by decide⟩,
    ((∅ : QueryMap).insert (str "a") (some [])).insert (str "b") none, ?_, by decide⟩
  · obtain rfl := mem_singleton.mp hseg
    exact ⟨by decide +kernel, nofun, wellFormed_of_notMem (by decide), nofun⟩
  · have hjoin : joinSegments [Segment.mk (str "a#b") none] = str "a#b" := rfl
    rw [hjoin, hmap]
    exact parseParams_lastKey (by decide +kernel) (by decide)
  · rw [decoded_eq_self (by decide)]
    decide
  · have htext : str "b&a=" = str "b" ++ chr '&' :: (str "a" ++ chr '=' :: encode []) := rfl
    have hlast : parseParams .relaxed (str "a" ++ chr '=' :: encode [])
        ((∅ : QueryMap).insert (str "b") none) =
          .ok (((∅ : QueryMap).insert (str "b") none).insert (str "a") none) := by
      rw [parseParams_lastKeyValue (by decide +kernel), decode_eq_self .relaxed (by decide)]
      rfl
    rw [queryMapOf_eq (by decide), htext, parseParams_bareKey (by decide +kernel),
      decode_eq_self .relaxed (by decide)]
    exact hlast
  · have htext : str "a=&b" = str "a" ++ chr '=' :: (encode [] ++ chr '&' :: str "b") := rfl
    rw [queryMapOf_eq (by decide), htext, parseParams_keyValue (by decide +kernel),
      decode_eq_self .relaxed (by decide)]
    exact parseParams_lastKey (by decide +kernel) (by decide)

/-- The segments "a=1" and "b", in the order "b&a=1". -/
theorem queryParamMap_of_segments_swapped :
    ∃ m, queryMapOf (str "b&a=1") = .ok m ∧ m.lookup (str "a") = some (some (str "1")) ∧
      m.lookup (str "b") = some none := by
  let a : Segment := ⟨str "a", some (str "1")⟩
  let b : Segment := ⟨str "b", none⟩
  have hmem : ∀ {P : Segment → Prop}, P a → P b → ∀ seg ∈ [a, b], P seg := by
    intro P ha hb seg hseg
    rcases mem_pair.mp hseg with rfl | rfl
    · exact ha
    · exact hb
  have hvalid : ∀ seg ∈ [a, b], seg.Valid := by
    refine hmem ⟨by decide +kernel, ?_, wellFormed_of_notMem (by decide), ?_⟩
      ⟨by decide +kernel, nofun, wellFormed_of_notMem (by decide), nofun⟩
    · rintro v hv
      obtain rfl : str "1" = v := Option.some.inj hv
      decide +kernel
    · rintro v hv
      obtain rfl : str "1" = v := Option.some.inj hv
      exact wellFormed_of_notMem (by decide)
  have hplain : ∀ seg ∈ [a, b], seg.Plain :=
    hmem ⟨by decide, nofun, by decide⟩ ⟨by decide, fun _ => ⟨by decide, by decide⟩, nofun⟩
  have ha : decoded a.key = str "a" := decoded_eq_self (by decide)
  have hb : decoded b.key = str "b" := decoded_eq_self (by decide)
  have hkeys : ([a, b].map fun seg => decoded seg.key).Nodup := by
    rw [map_cons, map_singleton, ha, hb]
    decide
  obtain ⟨m, hm, hlook⟩ := queryParamMap_of_segments (List.Perm.swap b a []) hvalid hkeys hplain
  refine ⟨m, hm, (hlook _ _).mpr ⟨a, mem_cons_self, ha.symm, ?_⟩,
    (hlook _ _).mpr ⟨b, by simp, hb.symm, rfl⟩⟩
  exact congrArg some (decoded_eq_self (by decide)).symm

end OpenCmw
