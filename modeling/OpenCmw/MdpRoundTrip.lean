import OpenCmw.QueryText

/-!
# MDP topics, written and read back

`toMdpTopic` writes the parameters of a topic in the order in which the
unordered map is iterated, and `fromMdpTopic` reads them. Whether the topic
comes back depends on that order: the reader takes the last parameter apart
(`readLast`), and the writer leaves out the '&' behind an empty text, so a
first parameter without key and value leaves no trace.

`roundTrip_iff` is the condition for one order. A topic comes back in every
order iff each of its parameters would survive at the end.
-/

namespace OpenCmw

open Topic
open UriFactory (appendParam)
open List SortedMap UMap

/-! ## The constructor -/

variable {service : Bytes} {p : Bytes × Option Bytes} {params : List (Bytes × Option Bytes)}
  {m : QueryMap} {t : Topic}

variable (h : isValidServiceName service = true)
include h

theorem notMem_questionMark : chr '?' ∉ service := by
  intro hmem
  simp only [isValidServiceName, Bool.and_eq_true, all_eq_true] at h
  exact absurd (h.2 _ hmem) (by decide)

/-- What stands before the '?' is the service. -/
theorem parseService_eq {s : Bytes}
    (hs : s.takeWhile (· != chr '?') = service) : Topic.parseService s = service := by
  simp only [isValidServiceName, Bool.and_eq_true, bne_iff_ne] at h
  obtain ⟨⟨⟨hslash, -⟩, hlast⟩, -⟩ := h
  have hstrip : Topic.stripTrailingSlashes service = service := by
    rw [Topic.stripTrailingSlashes, rdropWhile_eq_self_iff]
    intro hne heq
    rw [getLast?_eq_some_getLast hne] at hlast
    exact hlast (congrArg some (by simpa using heq))
  rw [Topic.parseService, hs, hstrip]
  exact if_pos hslash

theorem parseService_eq_self : Topic.parseService service = service := by
  have hmark := notMem_questionMark h
  refine parseService_eq h (takeWhile_eq_self_iff.mpr fun c hc => ?_)
  simpa using fun heq : c = chr '?' => hmark (heq ▸ hc)

theorem make_service (params : Params) : Topic.make service params = .ok ⟨service, params, h⟩ := by
  have hcon : service.contains (chr '?') = false := by
    simpa using notMem_questionMark h
  rw [Topic.make, hcon]
  show (if h : isValidServiceName (Topic.parseService service) = true then _ else _) = _
  simp only [parseService_eq_self h]
  rw [dif_pos h]
  rfl

omit h

theorem find?_paramsOf (m : QueryMap) (k : Bytes) (v : Option Bytes) :
    (paramsOf m).find? k = some v ↔ m.lookup k = some v := by
  have hnd : ((m.entries.map fun e => (e.1, e.2)).map (·.1)).Nodup := by
    rw [map_map]
    exact m.nodupKeys
  rw [paramsOf, find?_ofEntries hnd, mem_map, ← mem_entries_iff]
  constructor
  · rintro ⟨e, he, heq⟩
    cases heq
    exact he
  · exact fun h => ⟨⟨k, v⟩, h, rfl⟩

theorem queryParamMap_eq {uri : Uri .strict} {path query : Bytes}
    (hparts : uri.parts = { path, query }) (hqry : ∀ c ∈ query, isParamChar c = true) :
    uri.queryParamMap = parseParams .strict query ∅ := by
  have hchars : ∀ c, isParamChar c = true → isQueryChar c = true := forall_uint8 (by decide +kernel)
  have hchecked : checked .strict isQueryChar query (.illegalQuery query) = .ok () := by
    rw [checked, all_eq_true.mpr fun c hc => hchars c (hqry c hc)]
    rfl
  rw [Uri.queryParamMap, hparts]
  rw [hchecked]
  rfl

/-- A URI with a service as its path is the topic its query makes. -/
theorem fromMdpTopic_eq {uri : Uri .strict} {query : Bytes}
    (hparts : uri.parts = { path := service, query }) (hvalid : isValidServiceName service = true)
    (hqry : ∀ c ∈ query, isParamChar c = true) :
    fromMdpTopic uri = ((parseParams .strict query ∅).mapError TopicError.uri).map
      fun m => ⟨service, paramsOf m, hvalid⟩ := by
  have hpath : (if service.isEmpty then str "/" else service) = service := by
    rw [if_neg]
    intro hemp
    rw [isEmpty_iff.mp hemp] at hvalid
    exact absurd hvalid (by decide)
  rw [fromMdpTopic, queryParamMap_eq hparts hqry, hparts]
  cases parseParams .strict query ∅ with
  | error e => rfl
  | ok m =>
    show Topic.make (if service.isEmpty then str "/" else service) _ = _
    rw [hpath, make_service hvalid]
    rfl

/-! ## What the factory writes -/

theorem writeParam_encode_eq_nil_iff : writeParam encode p = [] ↔ p = ([], none) := by
  obtain ⟨_, value⟩ := p
  cases value with
  | none => simp [writeParam, encode_eq_nil_iff]
  | some value => simp [writeParam]

theorem appendParam_eq (query : Bytes) (p : Bytes × Option Bytes) :
    appendParam query p
      = query ++ (if query.isEmpty then [] else str "&") ++ writeParam encode p := by
  rewrite [appendParam, writeParam, append_assoc]
  rfl

theorem foldl_appendParam : ∀ {params : List (Bytes × Option Bytes)} {query : Bytes}, query ≠ [] →
    params.foldl appendParam query
      = query ++ params.flatMap fun q => chr '&' :: writeParam encode q
  | [], query, _ => (append_nil query).symm
  | p :: params, query, h => by
    have happend : appendParam query p = query ++ chr '&' :: writeParam encode p := by
      rw [appendParam_eq, if_neg (by simpa using h), append_assoc]
      rfl
    rw [foldl_cons, happend, foldl_appendParam (by simp), flatMap_cons, append_assoc]

theorem foldl_appendParam_nil (h : ∀ p ∈ params.head?, p ≠ ([], none)) :
    params.foldl appendParam [] = writeQuery encode params := by
  cases params with
  | nil => rfl
  | cons p params =>
    have hp : writeParam encode p ≠ [] := mt writeParam_encode_eq_nil_iff.mp (h p rfl)
    rw [foldl_cons, appendParam_eq, foldl_appendParam (by simpa using hp)]
    rfl

/-- A first parameter without key and value leaves no trace. -/
theorem foldl_appendParam_lost (params : List (Bytes × Option Bytes)) :
    (([], none) :: params).foldl appendParam []
      = params.foldl appendParam [] := rfl

/-! ## What is read back -/

/-- The last parameter is read as what it was. -/
theorem readLast_encode_eq_iff : readLast encode p = [p] ↔
      p.2 ≠ some [] ∧ (p.2 = none → p.1 ≠ [] ∧ ∀ c ∈ p.1, isUnreserved c = true) := by
  obtain ⟨key, value⟩ := p
  cases value with
  | none =>
    rw [readLast]
    by_cases hemp : key = []
    · subst hemp
      simp
    · rw [if_neg (by simpa [encode_eq_nil_iff] using hemp), ← encode_eq_self_iff]
      simp [hemp]
  | some value =>
    cases value with
    | nil => simp [readLast]
    | cons c value => simp [readLast]

/-- The map that was read is the one that was written iff the last parameter
survived. -/
theorem insertAll_readLast_iff {w : Bytes → Bytes}
    {last : Bytes × Option Bytes} (hnd : ((params ++ [last]).map (·.1)).Nodup) :
    (∀ k v, (insertAll (insertAll ∅ params) (readLast w last)).lookup k = some v ↔
      (k, v) ∈ params ++ [last]) ↔ readLast w last = [last] := by
  constructor
  · intro h
    have hlast := (h last.1 last.2).mpr (mem_append_right _ mem_cons_self)
    have hfresh : (insertAll ∅ params).lookup last.1 = none := by
      refine lookup_insertAll_of_notMem _ fun hmem => ?_
      rw [map_append, nodup_append] at hnd
      exact hnd.2.2 last.1 hmem last.1 mem_cons_self rfl
    obtain ⟨key, value⟩ := last
    cases value with
    | none =>
      rw [readLast] at hlast ⊢
      by_cases hemp : (w key).isEmpty = true
      · rw [if_pos hemp, insertAll_nil, hfresh] at hlast
        cases hlast
      · rw [if_neg hemp] at hlast ⊢
        rw [insertAll_cons, insertAll_nil, lookup_insert, hfresh] at hlast
        split_ifs at hlast with hkey
        dsimp only at hkey
        rw [← hkey]
    | some value =>
      rw [readLast] at hlast ⊢
      dsimp only at hlast ⊢
      rw [insertAll_cons, insertAll_nil, lookup_insert, if_pos rfl, Option.some.injEq] at hlast
      dsimp only at hlast
      rw [hlast]
  · intro h k v
    rw [h, ← insertAll_append, lookup_insertAll_iff hnd fun _ _ => rfl]
    simp

/-- The parameters, in the order in which they are written, come back: the
first leaves a trace and the last survives. -/
def MdpReadable (params : List (Bytes × Option Bytes)) : Prop :=
  (∀ p ∈ params.head?, p ≠ ([], none)) ∧
  ∀ p ∈ params.getLast?, p.2 ≠ some [] ∧
    (p.2 = none → p.1 ≠ [] ∧ ∀ c ∈ p.1, isUnreserved c = true)

theorem parseParams_encode {last : Bytes × Option Bytes} :
    parseParams .strict (writeQuery encode (params ++ [last])) ∅
      = .ok (insertAll (insertAll ∅ params) (readLast encode last)) := by
  rw [parseParams_writeQuery fun p _ => ⟨fun c => not_isKeyEnd_of_mem_encode,
    decode_encode .strict p.1⟩]
  exact parseParams_writeLast (fun c => not_isKeyEnd_of_mem_encode) (fun _ => decode_encode _ _) _

/-- The empty key is not read from parameters without it. -/
theorem lookup_nil_readBack (h : [] ∉ params.map (·.1))
    (hm : parseParams .strict (writeQuery encode params) ∅ = .ok m) : m.lookup [] = none := by
  rcases eq_nil_or_concat params with rfl | ⟨params, last, rfl⟩
  · obtain rfl := Except.ok.inj ((parseParams_nil .strict ∅).symm.trans hm)
    rfl
  · rw [concat_eq_append] at hm h
    rw [map_append, mem_append, not_or, map_singleton, mem_singleton] at h
    obtain rfl := Except.ok.inj (parseParams_encode.symm.trans hm)
    rw [lookup_insertAll_of_notMem, lookup_insertAll_of_notMem _ h.1]
    · rfl
    · obtain ⟨_, value⟩ := last
      intro hmem
      cases value with
      | none =>
        rw [readLast] at hmem
        split_ifs at hmem with hemp
        · cases hmem
        · rw [map_singleton, mem_singleton] at hmem
          exact hemp (isEmpty_iff.mpr hmem.symm)
      | some value => exact h.2 (mem_singleton.mp hmem)

theorem readBack_iff (hnd : (params.map (·.1)).Nodup) :
    (∃ m, parseParams .strict (params.foldl appendParam []) ∅ = .ok m ∧
      ∀ k v, m.lookup k = some v ↔ (k, v) ∈ params) ↔ MdpReadable params := by
  by_cases hhead : ∀ p ∈ params.head?, p ≠ ([], none)
  · rw [foldl_appendParam_nil hhead, MdpReadable, and_iff_right hhead]
    rcases eq_nil_or_concat params with rfl | ⟨params, last, rfl⟩
    · exact iff_of_true ⟨∅, parseParams_nil .strict ∅, by simp⟩ nofun
    · rw [concat_eq_append] at hnd ⊢
      have hlast : (∀ p ∈ (params ++ [last]).getLast?, p.2 ≠ some [] ∧
          (p.2 = none → p.1 ≠ [] ∧ ∀ c ∈ p.1, isUnreserved c = true)) ↔
          readLast encode last = [last] := by
        rw [readLast_encode_eq_iff, getLast?_concat]
        simp
      rw [hlast, ← insertAll_readLast_iff hnd, parseParams_encode]
      simp
  · refine iff_of_false ?_ fun h => hhead h.1
    rintro ⟨m, hm, hall⟩
    cases params with
    | nil => exact hhead nofun
    | cons p params =>
      obtain rfl : p = ([], none) := by
        by_contra hne
        exact hhead fun q hq => by
          obtain rfl : p = q := by simpa using hq
          exact hne
      have hkey : [] ∉ params.map (·.1) := (nodup_cons.mp hnd).1
      rw [foldl_appendParam_lost, foldl_appendParam_nil] at hm
      · have hnone := lookup_nil_readBack hkey hm
        rw [(hall [] none).mpr mem_cons_self] at hnone
        cases hnone
      · rintro q hq rfl
        exact hkey (mem_map_of_mem (mem_of_mem_head? hq))

/-! ## Topics -/

theorem iterate_keys_nodup (platform : Platform) (m : QueryMap) :
    ((platform.iterate m).map (·.1)).Nodup := by
  rw [((platform.iterate_perm m).map _).nodup_iff, map_map]
  exact m.nodupKeys

theorem mem_iterate_iff {platform : Platform} {k : Bytes} {v : Option Bytes} :
    (k, v) ∈ platform.iterate m ↔ m.lookup k = some v := by
  rw [(platform.iterate_perm m).mem_iff, mem_map, ← mem_entries_iff]
  constructor
  · rintro ⟨e, he, heq⟩
    cases heq
    exact he
  · exact fun h => ⟨⟨k, v⟩, h, rfl⟩

theorem lookup_mdpFactory (t : Topic) (k : Bytes) (v : Option Bytes) :
    t.mdpFactory.queryMap.lookup k = some v ↔ t.params.find? k = some v := by
  rw [Topic.mdpFactory, lookup_foldl_tryEmplace t.params.keys_nodup fun _ _ => rfl,
    find?_eq_some_iff]
  simp

/-- A topic is read back iff its parameters are. -/
theorem readTopic_eq_ok_iff {r : Except UriError QueryMap} :
    (r.mapError TopicError.uri).map (fun m => ⟨t.service, paramsOf m, t.valid⟩) = .ok t ↔
      ∃ m, r = .ok m ∧ ∀ k v, m.lookup k = some v ↔ (k, v) ∈ t.params.entries := by
  cases r with
  | error e => exact iff_of_false nofun (by rintro ⟨m, hm, -⟩; cases hm)
  | ok m =>
    constructor
    · intro h
      have hpar : paramsOf m = t.params := congrArg Topic.params (Except.ok.inj h)
      refine ⟨m, rfl, fun k v => ?_⟩
      rw [← hpar, ← find?_eq_some_iff, find?_paramsOf]
    · rintro ⟨_, hm', h⟩
      cases hm'
      have hpar : paramsOf m = t.params := ext_find? fun k v => by
        rw [find?_paramsOf, h, find?_eq_some_iff]
      show Except.ok (⟨t.service, paramsOf m, t.valid⟩ : Topic) = .ok t
      simp only [hpar]

/-- What a factory with the parameters of a topic builds. -/
theorem fromMdpTopic_build {f : UriFactory} (hf : f.PathOnly)
    (hpath : f.path = t.service) (hqry : f.query = [])
    (hmap : ∀ k v, f.queryMap.lookup k = some v ↔ (k, v) ∈ t.params.entries) (platform : Platform) :
    ∃ uri, f.build platform = .ok uri ∧
      (fromMdpTopic uri = .ok t ↔ MdpReadable (platform.iterate f.queryMap)) := by
  obtain ⟨uri, hbuild, hparts⟩ := hf.build_eq_ok platform
  refine ⟨uri, hbuild, ?_⟩
  rw [hpath] at hparts
  rw [fromMdpTopic_eq hparts t.valid (hf.fullQuery platform), readTopic_eq_ok_iff,
    ← readBack_iff (iterate_keys_nodup platform _), UriFactory.fullQuery, hqry]
  simp only [mem_iterate_iff, hmap]

theorem roundTrip_iff (platform : Platform) (t : Topic) :
    fromMdpTopic (t.toMdpTopic platform) = .ok t ↔
      MdpReadable (platform.iterate t.mdpFactory.queryMap) := by
  obtain ⟨_, hbuild, hiff⟩ := fromMdpTopic_build t.mdpFactory_pathOnly rfl rfl
    (fun k v => (lookup_mdpFactory t k v).trans find?_eq_some_iff) platform
  rwa [← Except.ok.inj ((t.mdpFactory_build platform).symm.trans hbuild)] at hiff

theorem mem_iterate_mdpFactory {platform : Platform} :
    p ∈ platform.iterate t.mdpFactory.queryMap ↔ p ∈ t.params.entries := by
  rw [show p = (p.1, p.2) from rfl, mem_iterate_iff, lookup_mdpFactory, find?_eq_some_iff]

/-- Parameters that survive at the end come back in every order. -/
theorem mdpReadable_of_forall (h : ∀ p ∈ params, p.2 ≠ some [] ∧
      (p.2 = none → p.1 ≠ [] ∧ ∀ c ∈ p.1, isUnreserved c = true)) : MdpReadable params := by
  refine ⟨fun p hp heq => ?_, fun p hp => h p (mem_of_getLast? hp)⟩
  exact ((h p (mem_of_mem_head? hp)).2 (by rw [heq])).1 (by rw [heq])

/-- A platform that comes to one entry last. -/
def Platform.lastly (p : Bytes × Option Bytes) : Platform where
  iterate m :=
    let params := m.entries.map fun e => (e.1, e.2)
    if p ∈ params then params.erase p ++ [p] else params
  iterate_perm m := by
    dsimp only
    split_ifs with hp
    · exact (perm_append_singleton _ _).trans (perm_cons_erase hp).symm
    · exact List.Perm.refl _
  what _ := str "error"

theorem getLast?_lastly (h : m.lookup p.1 = some p.2) :
    ((Platform.lastly p).iterate m).getLast? = some p := by
  have hmem : p ∈ m.entries.map fun e => (e.1, e.2) :=
    mem_map.mpr ⟨⟨p.1, p.2⟩, mem_entries_iff.mpr h, rfl⟩
  show (if _ then _ else _ : List (Bytes × Option Bytes)).getLast? = some p
  rw [if_pos hmem, getLast?_concat]

theorem mdp_topic_roundTrip_iff (t : Topic) :
    (∀ platform, fromMdpTopic (t.toMdpTopic platform) = .ok t ↔
      MdpReadable (platform.iterate t.mdpFactory.queryMap)) ∧
    ((∀ platform, fromMdpTopic (t.toMdpTopic platform) = .ok t) ↔
      ∀ p ∈ t.params.entries, p.2 ≠ some [] ∧
        (p.2 = none → p.1 ≠ [] ∧ ∀ c ∈ p.1, isUnreserved c = true)) := by
  refine ⟨fun platform => roundTrip_iff platform t, fun h p hp => ?_, fun h platform => ?_⟩
  · have hlast := ((roundTrip_iff (.lastly p) t).mp (h _)).2
    refine hlast p (getLast?_lastly ?_)
    rw [lookup_mdpFactory, find?_eq_some_iff]
    exact hp
  · exact (roundTrip_iff platform t).mpr
      (mdpReadable_of_forall fun p hp => h p (mem_iterate_mdpFactory.mp hp))

/-- A parameter with an empty value, the only one, so that there is one order
only: it comes back without a value. -/
def emptyValueTopic (value : Option Bytes) : Topic where
  service := str "/service"
  params := insert ∅ (str "ctx") value
  valid := isValidServiceName_service

theorem empty_value_is_lost :
    ((fromMdpTopic ((emptyValueTopic (some [])).toMdpTopic .inOrder)).toOption
      = some (emptyValueTopic none)) ∧ emptyValueTopic (some []) ≠ emptyValueTopic none := by
  decide +kernel

end OpenCmw
