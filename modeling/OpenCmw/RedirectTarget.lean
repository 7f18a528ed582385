import OpenCmw.ZmqTopic
import OpenCmw.RestServer

/-!
# Redirects lead back to the subscription

A poll for "Next" or "Last", or for an index that is gone, is answered with
a redirect. The location is the topic's URI with the parameters of the poll
appended to its query. When the client asks for it, the path is parsed, the
parameters of the poll are taken out, the rest is built into a URI again and
that is read as the topic.

Every text on this way is a query of parameters that survive at any place
(`mdpReadable_of_forall`), so each reading finds the parameters that were
written, whatever the orders of the three maps are.
-/

namespace OpenCmw

open UriFactory (ofUri)
open List

namespace Rest

open LongPolling

/-! ## Taking out the parameters of the poll -/

def isPollName (key : Bytes) : Bool := key = kIndexParameter || key = kBatchParameter

variable {p : Bytes × Option Bytes} {index : UInt64} {batch : Option Bytes} {t : Topic}

theorem readParam_spec (h : p.1 ≠ str "SubscriptionContext") (target : Target) :
    ∃ target', readParam target p = .ok target' ∧
      target'.subscriptionContext = target.subscriptionContext ∧
      target'.factory = (if isPollName p.1 then target.factory
        else target.factory.addQueryParameter p.1 p.2) ∧
      target'.longPollIndex
        = (if p.1 = kIndexParameter then some (p.2.getD []) else target.longPollIndex) ∧
      target'.longPollBatch
        = (if p.1 = kBatchParameter then some (p.2.getD []) else target.longPollBatch) := by
  have hnames : kIndexParameter ≠ kBatchParameter := by decide
  unfold readParam
  by_cases hidx : p.1 = kIndexParameter
  · refine ⟨_, if_pos hidx, rfl, ?_, ?_, ?_⟩
    · rw [if_pos (by simp [isPollName, hidx])]
    · rw [if_pos hidx]
    · rw [if_neg (by rw [hidx]; exact hnames)]
  · rw [if_neg hidx]
    by_cases hbatch : p.1 = kBatchParameter
    · refine ⟨_, if_pos hbatch, rfl, ?_, ?_, ?_⟩
      · rw [if_pos (by simp [isPollName, hbatch])]
      · rw [if_neg hidx]
      · rw [if_pos hbatch]
    · rw [if_neg hbatch, if_neg h]
      refine ⟨_, rfl, rfl, ?_, ?_, ?_⟩
      · rw [if_neg (by simp [isPollName, hidx, hbatch])]
      · rw [if_neg hidx]
      · rw [if_neg hbatch]

theorem foldlM_readParam : ∀ (params : List (Bytes × Option Bytes)) (target : Target),
    (∀ p ∈ params, p.1 ≠ str "SubscriptionContext") →
    ∃ target', params.foldlM readParam target = .ok target' ∧
      target'.subscriptionContext = target.subscriptionContext ∧
      target'.factory = { target.factory with
        queryMap := insertAll target.factory.queryMap (params.filter fun p => !isPollName p.1) } ∧
      target'.longPollIndex = params.foldl (fun r p =>
        if p.1 = kIndexParameter then some (p.2.getD []) else r) target.longPollIndex ∧
      target'.longPollBatch = params.foldl (fun r p =>
        if p.1 = kBatchParameter then some (p.2.getD []) else r) target.longPollBatch
  | [], target, _ => ⟨target, rfl, rfl, rfl, rfl, rfl⟩
  | p :: params, target, h => by
    obtain ⟨target₁, hread, hcontext, hfactory, hidx, hbatch⟩ :=
      readParam_spec (h p mem_cons_self) target
    obtain ⟨target', hrest, hcontext', hfactory', hidx', hbatch'⟩ :=
      foldlM_readParam _ target₁ fun q hq => h q (mem_cons_of_mem _ hq)
    refine ⟨target', ?_, hcontext'.trans hcontext, ?_, ?_, ?_⟩
    · rw [foldlM_cons, hread]
      exact hrest
    · rw [hfactory', hfactory]
      by_cases hpoll : isPollName p.1 = true
      · rw [if_pos hpoll, filter_cons_of_neg (by simp [hpoll])]
      · rw [if_neg hpoll, filter_cons_of_pos (by simp [hpoll])]
        rfl
    · rw [hidx', hidx, foldl_cons]
    · rw [hbatch', hbatch, foldl_cons]

/-- The last value set under a name. -/
theorem foldl_named_of_notMem {name : Bytes} :
    ∀ {params : List (Bytes × Option Bytes)} (r : Option Bytes), name ∉ params.map (·.1) →
      params.foldl (fun r p => if p.1 = name then some (p.2.getD []) else r) r = r
  | [], _, _ => rfl
  | p :: params, r, h => by
    obtain ⟨hne, hrest⟩ := not_or.mp (mem_cons.not.mp h)
    rw [foldl_cons, if_neg (Ne.symm hne), foldl_named_of_notMem r hrest]

theorem foldl_named_of_mem {name : Bytes} (value : Option Bytes) :
    ∀ {params : List (Bytes × Option Bytes)} (r : Option Bytes), (params.map (·.1)).Nodup →
      (name, value) ∈ params →
      params.foldl (fun r p => if p.1 = name then some (p.2.getD []) else r) r
        = some (value.getD [])
  | p :: params, r, hnd, h => by
    obtain ⟨hp, hnd⟩ := nodup_cons.mp hnd
    rw [foldl_cons]
    rcases mem_cons.mp h with rfl | h
    · rw [if_pos rfl, foldl_named_of_notMem _ hp]
    · exact foldl_named_of_mem value _ hnd h

/-! ## The location -/

/-- The parameters of the poll that a redirect adds. -/
def pollParams (index : UInt64) (batch : Option Bytes) : QueryMap :=
  match batch with
  | some batch => AList.insert kBatchParameter (some batch)
      (AList.insert kIndexParameter (some (toDec index.toNat)) ∅)
  | none => AList.insert kIndexParameter (some (toDec index.toNat)) ∅

theorem redirectFactory_eq (topic : Uri .strict) (index : UInt64) (batch : Option Bytes) :
    Session.redirectFactory topic index batch
      = { ofUri topic with queryMap := pollParams index batch } := by
  cases batch <;> rfl

theorem lookup_pollParams {k : Bytes} {v : Option Bytes} :
    (pollParams index batch).lookup k = some v ↔
      k = kIndexParameter ∧ v = some (toDec index.toNat) ∨ k = kBatchParameter ∧ batch.isSome = true
        ∧ v = batch := by
  have hnames : kIndexParameter ≠ kBatchParameter := by decide
  cases batch with
  | none =>
    rw [pollParams, UMap.lookup_insert]
    by_cases hk : k = kIndexParameter
    · simp [hk, eq_comm]
    · simp [hk]
  | some batch =>
    rw [pollParams, UMap.lookup_insert, UMap.lookup_insert]
    by_cases hk : k = kBatchParameter
    · simp [hk, hnames.symm, eq_comm]
    · by_cases hk' : k = kIndexParameter
      · simp [hk', hnames, eq_comm]
      · simp [hk, hk']

/-- The parameters a poll may be redirected with. -/
structure Redirectable (t : Topic) : Prop where
  keys : PlainKeys t
  names : ∀ p ∈ t.params.entries, isPollName p.1 = false ∧ p.1 ≠ str "SubscriptionContext"
  values : ∀ p ∈ t.params.entries, p.2 ≠ some []

theorem Redirectable.survives (h : Redirectable t) (hp : p ∈ t.params.entries) :
    p.2 ≠ some [] ∧ (p.2 = none → p.1 ≠ [] ∧ ∀ c ∈ p.1, isUnreserved c = true) :=
  ⟨h.values p hp, fun _ => h.keys p hp⟩

theorem batch_ne_nil {request : Request} {batch : LongPollingBatchRequest}
    (h : parseLongPollingBatch request = .ok batch) : request.longPollBatch ≠ some [] := by
  intro hemp
  rw [parseLongPollingBatch, hemp] at h
  dsimp only at h
  have herror : parseUnsigned [] kBatchParameter
      = .error (str "Malformed " ++ kBatchParameter ++ str " ''") := rfl
  rw [if_neg (by decide), herror] at h
  cases h

theorem survives_pollParams (hbatch : batch ≠ some []) (hp : (pollParams index batch).lookup p.1 = some p.2) :
    p.2 ≠ some [] ∧ (p.2 = none → p.1 ≠ [] ∧ ∀ c ∈ p.1, isUnreserved c = true) := by
  rcases lookup_pollParams.mp hp with ⟨-, hval⟩ | ⟨-, hsome, hval⟩
  · rw [hval]
    exact ⟨fun h => toDec_ne_nil _ (Option.some.inj h), nofun⟩
  · rw [hval]
    exact ⟨hbatch, fun hnone => by rw [hnone] at hsome; cases hsome⟩

theorem isPollName_of_lookup {k : Bytes}
    {v : Option Bytes} (h : (pollParams index batch).lookup k = some v) : isPollName k = true := by
  rcases lookup_pollParams.mp h with ⟨rfl, -⟩ | ⟨rfl, -⟩ <;> decide

/-- The query of a location, read: the parameters of the topic and of the poll. -/
theorem location_readBack (ht : Redirectable t) (platform₁ platform₂ : Platform)
    (index : UInt64) (hbatch : batch ≠ some []) :
    ∃ m, parseParams .strict ((Session.redirectFactory (t.toMdpTopic platform₁) index
        batch).fullQuery platform₂) ∅ = .ok m ∧ ∀ k v, m.lookup k = some v ↔
        (k, v) ∈ t.params.entries ∨ (pollParams index batch).lookup k = some v := by
  have hmem : ∀ k v, (k, v) ∈ platform₁.iterate t.mdpFactory.queryMap
      ++ platform₂.iterate (pollParams index batch) ↔
        (k, v) ∈ t.params.entries ∨ (pollParams index batch).lookup k = some v := by
    intro k v
    rw [mem_append, mem_iterate_mdpFactory, mem_iterate_iff]
  have hnd : ((platform₁.iterate t.mdpFactory.queryMap
      ++ platform₂.iterate (pollParams index batch)).map (·.1)).Nodup := by
    rw [map_append, nodup_append]
    refine ⟨iterate_keys_nodup _ _, iterate_keys_nodup _ _, fun k hk k' hk' heq => ?_⟩
    obtain ⟨p, hp, rfl⟩ := mem_map.mp hk
    obtain ⟨q, hq, rfl⟩ := mem_map.mp hk'
    have hpoll := isPollName_of_lookup (mem_iterate_iff.mp hq)
    have hname := (ht.names p (mem_iterate_mdpFactory.mp hp)).1
    rw [show p.1 = q.1 from heq, hpoll] at hname
    cases hname
  have hrd : MdpReadable (platform₁.iterate t.mdpFactory.queryMap
      ++ platform₂.iterate (pollParams index batch)) := by
    refine mdpReadable_of_forall fun p hp => ?_
    rcases (hmem p.1 p.2).mp hp with hp | hp
    · exact ht.survives hp
    · exact survives_pollParams hbatch hp
  obtain ⟨m, hm, hall⟩ := (readBack_iff hnd).mpr hrd
  refine ⟨m, ?_, fun k v => (hall k v).trans (hmem k v)⟩
  rw [redirectFactory_eq, UriFactory.fullQuery, ofUri, t.toMdpTopic_parts]
  rw [foldl_append] at hm
  exact hm

theorem redirectFactory_pathOnly {topic : Uri .strict} (h : (ofUri topic).PathOnly)
    (index : UInt64) (batch : Option Bytes) :
    (Session.redirectFactory topic index batch).PathOnly := by
  rw [redirectFactory_eq]
  exact { h with }

/-- Reading the parameters of a location: those of the poll are taken out, and
what is built of the others is the topic. -/
theorem target_of_location (ht : Redirectable t) (platform : Platform) {m : QueryMap}
    (hm : ∀ k v, m.lookup k = some v ↔
      (k, v) ∈ t.params.entries ∨ (pollParams index batch).lookup k = some v) :
    ∃ target uri, (platform.iterate m).foldlM readParam { factory := { path := t.service } }
        = .ok target ∧ target.subscriptionContext = none ∧ target.factory.build platform = .ok uri ∧
      Topic.fromMdpTopic uri = .ok t ∧ target.longPollIndex = some (toDec index.toNat) ∧
      target.longPollBatch = batch := by
  have hmem : ∀ p : Bytes × Option Bytes, p ∈ platform.iterate m ↔
      p ∈ t.params.entries ∨ (pollParams index batch).lookup p.1 = some p.2 := fun p =>
    mem_iterate_iff.trans (hm p.1 p.2)
  have hnd := iterate_keys_nodup platform m
  obtain ⟨target, hfold, hcontext, hfactory, hidx, hbatch⟩ :=
    foldlM_readParam (platform.iterate m) { factory := { path := t.service } } (by
      intro p hp heq
      rcases (hmem p).mp hp with hp | hp
      · exact (ht.names p hp).2 heq
      · have hpoll := isPollName_of_lookup hp
        rw [heq] at hpoll
        exact absurd hpoll (by decide))
  have hmap : ∀ k v, target.factory.queryMap.lookup k = some v ↔ (k, v) ∈ t.params.entries := by
    intro k v
    have hfilter : (((platform.iterate m).filter fun p => !isPollName p.1).map (·.1)).Nodup :=
      hnd.sublist (filter_sublist.map _)
    rw [hfactory]
    rw [lookup_insertAll_iff hfilter fun _ _ => rfl, mem_filter, hmem]
    constructor
    · rintro (⟨hp | hp, hpoll⟩ | hp)
      · exact hp
      · rw [isPollName_of_lookup hp] at hpoll
        cases hpoll
      · cases hp
    · intro hp
      exact Or.inl ⟨Or.inl hp, by rw [(ht.names _ hp).1]; rfl⟩
  have hpathOnly : target.factory.PathOnly := by
    have hmdp := t.mdpFactory_pathOnly
    rw [hfactory]
    exact ⟨rfl, rfl, rfl, hmdp.slash, hmdp.path, nofun⟩
  obtain ⟨uri, hbuild, hread⟩ := fromMdpTopic_build hpathOnly (by rw [hfactory]) (by rw [hfactory])
    hmap platform
  refine ⟨target, uri, hfold, hcontext, hbuild, hread.mpr ?_, ?_, ?_⟩
  · exact mdpReadable_of_forall fun p hp => ht.survives ((hmap p.1 p.2).mp (mem_iterate_iff.mp hp))
  · rw [hidx]
    exact foldl_named_of_mem (some (toDec index.toNat)) _ hnd
      ((hmem _).mpr (Or.inr (lookup_pollParams.mpr (Or.inl ⟨rfl, rfl⟩))))
  · rw [hbatch]
    cases batch with
    | some value =>
      exact foldl_named_of_mem (some value) _ hnd
        ((hmem _).mpr (Or.inr (lookup_pollParams.mpr (Or.inr ⟨rfl, rfl, rfl⟩))))
    | none =>
      refine foldl_named_of_notMem _ fun hname => ?_
      obtain ⟨p, hp, hname⟩ := mem_map.mp hname
      rcases (hmem p).mp hp with hp | hp
      · have hpoll := (ht.names p hp).1
        rw [hname] at hpoll
        exact absurd hpoll (by decide)
      · rcases lookup_pollParams.mp hp with ⟨hk, -⟩ | ⟨-, hsome, -⟩
        · rw [hname] at hk
          exact absurd hk (by decide)
        · cases hsome

theorem redirect_leads_back {StreamId : Type} [LinearOrder StreamId]
    (platform₁ platform₂ platform₃ : Platform) {t : Topic} (ht : Redirectable t) (index : UInt64)
    {request : Request} {batch : LongPollingBatchRequest}
    (hbatch : parseLongPollingBatch request = .ok batch) (s : Session StreamId)
    (streamId : StreamId) : ∃ location target,
      s.respondWithLongPollingRedirect platform₂ streamId (t.toMdpTopic platform₁) index
        request.longPollBatch = some (s.sendResponse streamId (Session.redirectResponse location)) ∧
      parseTarget platform₃ location = .ok (t, target) ∧
      target.longPollIndex = some (toDec index.toNat) ∧
      target.longPollBatch = request.longPollBatch := by
  have hpathOnly := redirectFactory_pathOnly (t.toMdpTopic_pathOnly platform₁) index
    request.longPollBatch
  obtain ⟨location, hbuild, hparts⟩ := hpathOnly.build_eq_ok platform₂
  obtain ⟨m, hm, hall⟩ := location_readBack ht platform₁ platform₂ index (batch_ne_nil hbatch)
  obtain ⟨target, uri, hfold, hcontext, hrebuild, htopic, hidx, hbatch⟩ :=
    target_of_location ht platform₃ hall
  refine ⟨location.str, target, ?_, ?_, hidx, hbatch⟩
  · rw [Session.respondWithLongPollingRedirect, hbuild]
  · have hpath : (Session.redirectFactory (t.toMdpTopic platform₁) index
        request.longPollBatch).path = t.service := by
      rw [redirectFactory_eq, ofUri, t.toMdpTopic_parts]
    have hfactory : (ofUri location).setQuery ∅ = { path := t.service } := by
      rw [ofUri, hparts, hpath]
      rfl
    have hmap : location.queryParamMap = .ok m := by
      rw [queryParamMap_eq hparts (hpathOnly.fullQuery platform₂), hm]
    rw [parseTarget, Uri.ofBytes_eq_ok location.parsed]
    show Except.bind (Except.mapError _ location.queryParamMap) _ = _
    rw [hmap]
    show Except.bind ((platform₃.iterate m).foldlM readParam
      { factory := (ofUri location).setQuery ∅ }) _ = _
    rw [hfactory, hfold]
    dsimp only [Except.bind]
    rw [hcontext]
    rw [hrebuild]
    show Except.bind (Topic.fromMdpTopic uri) _ = _
    rw [htopic]
    rfl

/-- A topic with a value that has to be coded. -/
def redirectedTopic : Topic where
  service := str "/service"
  params := (SortedMap.insert ∅ (str "ctx") (some (str "a&b"))).insert (str "raw") none
  valid := isValidServiceName_service

theorem redirectable_redirectedTopic : Redirectable redirectedTopic := by
  constructor
  · unfold PlainKeys
    decide +kernel
  · decide +kernel
  · decide +kernel

theorem redirect_leads_back_coded_value : ∃ location target,
    ((Server.initial []).sessions 0).respondWithLongPollingRedirect .inOrder 1
      (redirectedTopic.toMdpTopic .inOrder) 7 (some (str "2"))
        = some (((Server.initial []).sessions 0).sendResponse 1
            (Session.redirectResponse location)) ∧
    parseTarget .inOrder location = .ok (redirectedTopic, target) ∧
    target.longPollIndex = some (str "7") ∧ target.longPollBatch = some (str "2") := by
  have hbatch : (parseLongPollingBatch { longPollBatch := some (str "2") }).toOption.isSome
      = true := by decide +kernel
  obtain ⟨_, hbatch⟩ := Option.isSome_iff_exists.mp hbatch
  exact redirect_leads_back .inOrder .inOrder .inOrder redirectable_redirectedTopic 7
    (toOption_eq_some.mp hbatch) ((Server.initial []).sessions 0) 1

end Rest

end OpenCmw
