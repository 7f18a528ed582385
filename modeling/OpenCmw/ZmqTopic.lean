import OpenCmw.MdpRoundTrip

/-!
# ZMQ topics, compared and read back

The ZMQ form of a topic is its service, its parameters in the order of their
keys and, unless the caller says otherwise, a final '#'. Keys are written as
they are. ZeroMQ delivers by prefix, so the forms of different topics must
not be prefixes of each other: that holds where the keys are plain
(`zmq_prefix_iff`), because a '#' then ends the text and nothing else.

Reading the form back goes through the same reader as for MDP topics, and
here the keys are not coded. `ZmqReadable` says exactly which topics come
back. That nothing else does is an argument about the length of keys: a
separator or '#' in a key is not read as a part of a key, and decoding a
'%' makes a key shorter, so the keys that are read have fewer bytes than the
topic's (`keyLen_writeQuery_le`, `keySum_le_keyLen`).
-/

namespace OpenCmw

open Topic Nat
open List (append_nil mem_cons_self mem_cons_of_mem mem_append mem_cons mem_map append_assoc
  map_cons length_cons drop_left nil_append getLast?_concat dropLast_concat cons_append sum_cons)

namespace Topic

variable (t : Topic)

/-- `toZmqTopic(delimitWithPound)`. -/
def toZmqTopicWith (delimitWithPound : Bool) : Bytes :=
  let pound := if delimitWithPound then str "#" else []
  if t.params = ∅ then t.service ++ pound
  else t.service ++ chr '?' :: (str "&").intercalate (t.params.entries.map zmqParam) ++ pound

theorem toZmqTopic_eq : t.toZmqTopic = t.toZmqTopicWith true := by
  unfold toZmqTopic toZmqTopicWith
  by_cases hemp : t.params = ∅
  · rw [if_pos hemp, if_pos hemp]
    simp
  · rw [if_neg hemp, if_neg hemp]
    rfl

/-- The text between the service and the '#'. -/
def zmqQuery : Bytes := (str "&").intercalate (t.params.entries.map zmqParam)

/-- The text before the '#'. -/
def zmqBody : Bytes :=
  t.service ++ if t.params = ∅ then [] else chr '?' :: t.zmqQuery

theorem toZmqTopicWith_eq (delimitWithPound : Bool) : t.toZmqTopicWith delimitWithPound
      = t.zmqBody ++ if delimitWithPound then str "#" else [] := by
  unfold toZmqTopicWith zmqBody zmqQuery
  split_ifs <;> simp

theorem params_eq_empty_iff {t : Topic} : t.params = ∅ ↔ t.params.entries = [] := by
  rw [SortedMap.ext_iff]
  rfl

end Topic

/-! ## Prefixes -/

/-- The keys are not empty and have unreserved characters only. -/
def PlainKeys (t : Topic) : Prop :=
  ∀ p ∈ t.params.entries, p.1 ≠ [] ∧ ∀ c ∈ p.1, isUnreserved c = true

variable {c : UInt8} {s : Bytes} {t : Topic} {p : Bytes × Option Bytes} {m : QueryMap}
  {check : UriCheck} {tail rest : Bytes} {params : List (Bytes × Option Bytes)}
  {last : Bytes × Option Bytes}

theorem special_of_isUnreserved (h : isUnreserved c = true) :
    isKeyEnd c = false ∧ c ≠ chr '#' ∧ c ≠ chr '?' ∧ c ≠ chr '%' ∧ c ≠ chr '&' ∧ c ≠ chr '=' :=
  forall_uint8 (P := fun c => isUnreserved c = true →
    isKeyEnd c = false ∧ c ≠ chr '#' ∧ c ≠ chr '?' ∧ c ≠ chr '%' ∧ c ≠ chr '&' ∧ c ≠ chr '=')
    (by decide +kernel) c h

theorem special_of_mem_encode (h : c ∈ encode s) : c ≠ chr '#' ∧ c ≠ chr '&' := by
  have hchar : ∀ c, isParamChar c = true → isKeyEnd c = false → c ≠ chr '#' ∧ c ≠ chr '&' :=
    forall_uint8 (by decide +kernel)
  exact hchar c (isParamChar_of_mem_encode h) (not_isKeyEnd_of_mem_encode h)

theorem not_pound_of_mem_service (h : c ∈ t.service) : c ≠ chr '#' ∧ c ≠ chr '?' := by
  have hvalid := t.valid
  simp only [isValidServiceName, Bool.and_eq_true, List.all_eq_true] at hvalid
  exact (valid_of_isPathChar (isPathChar_of_isServiceNameChar (hvalid.2 c h))).2.symm

/-- A parameter is read off its text. -/
theorem zmqParam_inj {q : Bytes × Option Bytes} (hp : ∀ c ∈ p.1, isUnreserved c = true)
    (hq : ∀ c ∈ q.1, isUnreserved c = true) (h : zmqParam p = zmqParam q) : p = q := by
  have htake : ∀ r : Bytes × Option Bytes, (∀ c ∈ r.1, isUnreserved c = true) →
      (zmqParam r).takeWhile (· != chr '=') = r.1 := by
    intro r hr
    have hkey : ∀ c ∈ r.1, (c != chr '=') = true := fun c hc => by
      simpa using (special_of_isUnreserved (hr c hc)).2.2.2.2.2
    rw [zmqParam, List.takeWhile_append_of_pos hkey]
    cases r.2 with
    | none => exact append_nil _
    | some value =>
      rw [List.takeWhile_cons_of_neg (by simp), append_nil]
  have hkey : p.1 = q.1 := by rw [← htake p hp, h, htake q hq]
  obtain ⟨key, value⟩ := p
  obtain ⟨key', value'⟩ := q
  obtain rfl : key = key' := hkey
  have htail := List.append_cancel_left (h : key ++ _ = key ++ _)
  cases value with
  | none =>
    cases value' with
    | none => rfl
    | some v => cases htail
  | some v =>
    cases value' with
    | none => cases htail
    | some v' => rw [encode_injective (List.cons.inj htail).2]

theorem map_zmqParam_inj : ∀ {l l' : List (Bytes × Option Bytes)},
    (∀ p ∈ l, ∀ c ∈ p.1, isUnreserved c = true) → (∀ p ∈ l', ∀ c ∈ p.1, isUnreserved c = true) →
      l.map zmqParam = l'.map zmqParam → l = l'
  | [], [], _, _, _ => rfl
  | [], _ :: _, _, _, h => by cases h
  | _ :: _, [], _, _, h => by cases h
  | p :: l, q :: l', hl, hl', h => by
    obtain ⟨hhead, htail⟩ := List.cons.inj h
    rw [zmqParam_inj (hl p mem_cons_self) (hl' q mem_cons_self) hhead,
      map_zmqParam_inj (fun r hr => hl r (mem_cons_of_mem _ hr))
        (fun r hr => hl' r (mem_cons_of_mem _ hr)) htail]

theorem special_of_mem_zmqParam (hp : ∀ c ∈ p.1, isUnreserved c = true) (h : c ∈ zmqParam p) :
    c ≠ chr '#' ∧ c ≠ chr '&' := by
  obtain ⟨_, value⟩ := p
  rcases mem_append.mp h with h | h
  · have hc := special_of_isUnreserved (hp c h)
    exact ⟨hc.2.1, hc.2.2.2.2.1⟩
  · cases value with
    | none => cases h
    | some value =>
      rcases mem_cons.mp h with rfl | h
      · decide
      · exact special_of_mem_encode h

theorem pound_notMem_intercalate : ∀ {parts : List Bytes}, (∀ s ∈ parts, chr '#' ∉ s) →
    chr '#' ∉ (str "&").intercalate parts
  | [], _ => by simp
  | [s], h => by simpa using h s mem_cons_self
  | s :: s' :: parts, h => by
    rw [List.intercalate_cons_cons, mem_append, mem_append, not_or, not_or]
    exact ⟨⟨h s mem_cons_self, by decide⟩,
      pound_notMem_intercalate fun r hr => h r (mem_cons_of_mem _ hr)⟩

theorem pound_notMem_zmqBody (h : PlainKeys t) : chr '#' ∉ t.zmqBody := by
  rw [zmqBody, mem_append, not_or]
  refine ⟨fun hmem => (not_pound_of_mem_service hmem).1 rfl, ?_⟩
  split_ifs
  · exact List.not_mem_nil
  · refine List.not_mem_cons_of_ne_of_not_mem (by decide) (pound_notMem_intercalate ?_)
    intro s hs hpound
    obtain ⟨p, hp, rfl⟩ := mem_map.mp hs
    exact (special_of_mem_zmqParam (h p hp).2 hpound).1 rfl

/-- The service and the parameters are read off the body. -/
theorem zmqBody_inj {t₁ t₂ : Topic} (h₁ : PlainKeys t₁) (h₂ : PlainKeys t₂)
    (h : t₁.zmqBody = t₂.zmqBody) : t₁ = t₂ := by
  have htake : ∀ t : Topic, t.zmqBody.takeWhile (· != chr '?') = t.service := by
    intro t
    have hsvc : ∀ c ∈ t.service, (c != chr '?') = true := fun c hc => by
      simpa using (not_pound_of_mem_service hc).2
    rw [zmqBody, List.takeWhile_append_of_pos hsvc]
    split_ifs
    · exact append_nil _
    · rw [List.takeWhile_cons_of_neg (by simp), append_nil]
  have hsvc : t₁.service = t₂.service := by rw [← htake t₁, h, htake t₂]
  have hparts : ∀ t : Topic, PlainKeys t → t.params ≠ ∅ →
      t.zmqQuery.splitOn (chr '&') = t.params.entries.map zmqParam := by
    intro t ht hne
    refine List.splitOn_intercalate (chr '&') (fun s hs hmem => ?_) ?_
    · obtain ⟨p, hp, rfl⟩ := mem_map.mp hs
      exact (special_of_mem_zmqParam (ht p hp).2 hmem).2 rfl
    · rw [ne_eq, List.map_eq_nil_iff, ← params_eq_empty_iff]
      exact hne
  have hents : t₁.params.entries = t₂.params.entries := by
    rw [zmqBody, zmqBody, hsvc, List.append_cancel_left_eq] at h
    by_cases hemp₁ : t₁.params = ∅
    · by_cases hemp₂ : t₂.params = ∅
      · rw [hemp₁, hemp₂]
      · rw [if_pos hemp₁, if_neg hemp₂] at h
        cases h
    · by_cases hemp₂ : t₂.params = ∅
      · rw [if_neg hemp₁, if_pos hemp₂] at h
        cases h
      · rw [if_neg hemp₁, if_neg hemp₂] at h
        have hmap : t₁.params.entries.map zmqParam = t₂.params.entries.map zmqParam := by
          rw [← hparts t₁ h₁ hemp₁, (List.cons.inj h).2, hparts t₂ h₂ hemp₂]
        exact map_zmqParam_inj (fun p hp => (h₁ p hp).2) (fun p hp => (h₂ p hp).2) hmap
  obtain ⟨service₁, params₁, _⟩ := t₁
  obtain ⟨service₂, params₂, _⟩ := t₂
  obtain rfl : service₁ = service₂ := hsvc
  obtain rfl : params₁ = params₂ := SortedMap.ext hents
  rfl

theorem zmq_prefix_iff {t₁ t₂ : Topic} (h₁ : PlainKeys t₁) (h₂ : PlainKeys t₂) :
    t₁.toZmqTopic <+: t₂.toZmqTopic ↔ t₁ = t₂ := by
  refine ⟨fun hpre => ?_, fun h => h ▸ List.prefix_refl _⟩
  obtain ⟨rest, hrest⟩ := hpre
  rw [Topic.toZmqTopic_eq, Topic.toZmqTopic_eq, Topic.toZmqTopicWith_eq, Topic.toZmqTopicWith_eq]
    at hrest
  -- the first '#' ends both bodies
  have htake : ∀ (t : Topic) (rest : Bytes), PlainKeys t →
      ((t.zmqBody ++ str "#") ++ rest).takeWhile (· != chr '#') = t.zmqBody := by
    intro t rest ht
    rw [append_assoc, List.takeWhile_append_of_pos]
    · show _ ++ (chr '#' :: rest).takeWhile _ = _
      rw [List.takeWhile_cons_of_neg (by simp), append_nil]
    · intro c hc
      simpa using fun heq : c = chr '#' => pound_notMem_zmqBody ht (heq ▸ hc)
  refine zmqBody_inj h₁ h₂ ?_
  have hboth := congrArg (List.takeWhile (· != chr '#')) hrest
  have hfirst := htake t₁ rest h₁
  have hsecond := htake t₂ [] h₂
  rw [append_nil] at hsecond
  exact hfirst.symm.trans (hboth.trans hsecond)

/-- One topic has a key that begins like the other's. -/
def keyTopic (key : Bytes) : Topic where
  service := str "/service"
  params := SortedMap.insert ∅ key none
  valid := isValidServiceName_service

theorem zmq_prefix_iff_prefix_keys :
    PlainKeys (keyTopic (str "a")) ∧ PlainKeys (keyTopic (str "ab")) ∧
    ¬(keyTopic (str "a")).toZmqTopic <+: (keyTopic (str "ab")).toZmqTopic := by
  have hplain : ∀ key ∈ [str "a", str "ab"], PlainKeys (keyTopic key) := by
    unfold PlainKeys
    decide +kernel
  have ha := hplain _ mem_cons_self
  have hab := hplain _ (mem_cons_of_mem _ mem_cons_self)
  exact ⟨ha, hab, fun h => absurd ((zmq_prefix_iff ha hab).mp h) (by decide +kernel)⟩

/-! ## Reading back -/

/-- The parameters come back: keys have no separator and no '#', a '%' stands
only in a last key without value, and the last parameter is not empty. -/
def ZmqReadable (t : Topic) : Prop :=
  (∀ p ∈ t.params.entries, ∀ c ∈ p.1, isKeyEnd c = false ∧ c ≠ chr '#') ∧
  (∀ p ∈ t.params.entries.dropLast, chr '%' ∉ p.1) ∧
  ∀ p ∈ t.params.entries.getLast?, p ≠ ([], none) ∧ p.2 ≠ some [] ∧
    (p.2.isSome = true → chr '%' ∉ p.1)

theorem zmqQuery_eq (t : Topic) : t.zmqQuery = writeQuery id t.params.entries := by
  have hwrite : ∀ p, zmqParam p = writeParam id p := fun p => rfl
  rw [zmqQuery]
  induction t.params.entries with
  | nil => rfl
  | cons p l ih =>
    cases l with
    | nil => simp [writeQuery, hwrite]
    | cons q l =>
      rw [writeQuery_cons_cons, ← ih, map_cons, map_cons, List.intercalate_cons_cons, append_assoc]
      rfl

/-- A service with a query, in any characters. -/
theorem parseURI_relaxed_query {service : Bytes} (hslash : service.head? = some (chr '/'))
    (hpath : ∀ c ∈ service, isPathChar c = true) (query : Bytes) :
    ∃ fragment, parseURI .relaxed (service ++ chr '?' :: query)
      = .ok { path := service, query := query.takeWhile (· != chr '#'), fragment } := by
  have hlen : (service ++ chr '?' :: query).length = service.length + 1 + query.length := by
    rw [List.length_append, length_cons]
    omega
  have hfind : findFirstOf (str "?#") (service ++ chr '?' :: query) 0 = service.length := by
    refine findFirstOf_append (fun c hc => ?_) fun c hc => ?_
    · exact (contains_questionHash (valid_of_isPathChar (hpath c hc)).2).1
    · obtain rfl : chr '?' = c := by simpa using hc
      decide
  have hparsePath : parsePath .relaxed (service ++ chr '?' :: query) 0
      = .ok (service, service.length) := by
    rw [parsePath, hfind, min_eq_left (by omega), Nat.sub_zero, substr,
      if_pos (zero_le _), List.drop_zero, List.take_left]
    rfl
  have hhash : findFirstOf (str "#") (service ++ chr '?' :: query) service.length
      = service.length + 1 + (query.takeWhile (· != chr '#')).length := by
    have hpred : (fun c => !(str "#").contains c) = (· != chr '#') := by
      funext c
      have hset : str "#" = [chr '#'] := rfl
      simp [hset, bne, beq_eq_decide]
    rw [findFirstOf, drop_left, hpred, List.takeWhile_cons_of_pos (by decide), length_cons]
    omega
  have htake : query.take (query.takeWhile (· != chr '#')).length
      = query.takeWhile (· != chr '#') :=
    (List.prefix_iff_eq_take.mp (List.takeWhile_prefix _)).symm
  have hle := (List.takeWhile_prefix (l := query) (· != chr '#')).length_le
  have hparseQuery : (parseQuery (service ++ chr '?' :: query) service.length).1
      = query.takeWhile (· != chr '#') := by
    rw [parseQuery, hhash, min_eq_left (by omega), ← List.head?_drop, drop_left,
      List.head?_cons, beq_self_eq_true, if_pos rfl, List.drop_append,
      List.drop_of_length_le (le_succ _), nil_append, Nat.add_sub_cancel_left,
      List.drop_succ_cons, List.drop_zero]
    rw [show service.length + 1 + (query.takeWhile (· != chr '#')).length - service.length - 1
      = (query.takeWhile (· != chr '#')).length by omega, htake]
  have hhead : (service ++ chr '?' :: query).head? = some (chr '/') := by
    rw [List.head?_append, hslash]
    rfl
  refine ⟨(parseQuery (service ++ chr '?' :: query) service.length).2, ?_⟩
  rw [← hparseQuery, parseURI, checked_relaxed, hhead]
  refine bind_eq_ok.mpr ⟨(), rfl, ?_⟩
  rw [if_neg (by simp)]
  refine bind_eq_ok.mpr ⟨([], 0), rfl, ?_⟩
  dsimp only
  rw [if_neg (by simp)]
  exact bind_eq_ok.mpr ⟨([], 0), rfl, bind_eq_ok.mpr ⟨(service, service.length), hparsePath, rfl⟩⟩

theorem takeWhile_append_pound (s : Bytes) :
    (s ++ [chr '#']).takeWhile (· != chr '#') = s.takeWhile (· != chr '#') := by
  rw [List.takeWhile_append]
  split_ifs with hall
  · rw [List.takeWhile_cons_of_neg (by simp), append_nil,
      (List.takeWhile_prefix _).eq_of_length hall]
  · rfl

/-- What `fromZmqTopic` makes of a topic with parameters: a '#' in a key ends
the query, so the final one does not matter. -/
theorem fromZmqTopic_eq (hne : t.params ≠ ∅) (delimitWithPound : Bool) :
    fromZmqTopic (t.toZmqTopicWith delimitWithPound)
      = ((parseParams .relaxed ((writeQuery id t.params.entries).takeWhile (· != chr '#'))
          ∅).mapError TopicError.uri).map fun m => ⟨t.service, paramsOf m, t.valid⟩ := by
  have hslash : t.service.head? = some (chr '/') := t.mdpFactory_pathOnly.slash
  have hpath : ∀ c ∈ t.service, isPathChar c = true := t.mdpFactory_pathOnly.path
  have hmake : ∀ query : Bytes, make (t.service ++ chr '?' :: query) ∅
      = ((parseParams .relaxed (query.takeWhile (· != chr '#')) ∅).mapError TopicError.uri).map
          fun m => ⟨t.service, paramsOf m, t.valid⟩ := by
    intro query
    obtain ⟨_, hparse⟩ := parseURI_relaxed_query hslash hpath query
    have hsvc : parseService (t.service ++ chr '?' :: query) = t.service := by
      refine parseService_eq t.valid ?_
      rw [List.takeWhile_append_of_pos fun c hc => by
        simpa using (not_pound_of_mem_service hc).2]
      rw [List.takeWhile_cons_of_neg (by simp), append_nil]
    have hcon : (t.service ++ chr '?' :: query).contains (chr '?') = true := by simp
    rw [make, hcon, Uri.ofBytes_eq_ok hparse, if_pos rfl]
    rw [if_neg (by simp)]
    show Except.bind (Except.mapError _ (parseParams .relaxed _ ∅)) _ = _
    cases parseParams .relaxed (query.takeWhile (· != chr '#')) ∅ with
    | error e => rfl
    | ok m =>
      show (if h : isValidServiceName (parseService _) = true then _ else _) = _
      simp only [hsvc]
      rw [dif_pos t.valid]
      rfl
  have hqry := zmqQuery_eq t
  rw [toZmqTopicWith_eq, zmqBody, if_neg hne, hqry]
  cases delimitWithPound with
  | true =>
    rw [if_pos rfl, fromZmqTopic, show str "#" = [chr '#'] from rfl, getLast?_concat,
      dropLast_concat, beq_self_eq_true, if_pos rfl]
    exact hmake _
  | false =>
    rw [if_neg Bool.false_ne_true, append_nil, fromZmqTopic]
    by_cases hpound : (t.service ++ chr '?' :: writeQuery id t.params.entries).getLast?
        = some (chr '#')
    · -- the last key ends in '#'
      rw [if_pos (by rw [hpound]; rfl)]
      rcases List.eq_nil_or_concat (writeQuery id t.params.entries) with hnil | ⟨query, c, hqry⟩
      · rw [hnil, getLast?_concat] at hpound
        exact absurd hpound (by decide)
      · rw [hqry, List.concat_eq_append] at hpound ⊢
        rw [← cons_append, ← append_assoc, getLast?_concat] at hpound
        cases hpound
        rw [← cons_append, ← append_assoc, dropLast_concat, takeWhile_append_pound]
        exact hmake _
    · rw [if_neg (by simpa using hpound)]
      exact hmake _

/-! ## How many bytes keys have -/

/-- What may stand in a key that is read. -/
def isKeyChar (c : UInt8) : Bool := !isKeyEnd c && c != chr '#'

/-- The bytes of a query that may be read as a part of a key; `inKey` says
whether a key is read at the beginning. -/
def keyLen (inKey : Bool) : Bytes → Nat
  | [] => 0
  | c :: s =>
    if isValueEnd c then keyLen true s
    else if c = chr '=' then keyLen false s
    else (if inKey && c != chr '#' then 1 else 0) + keyLen inKey s

/-- Whether a key is read after a text. -/
def keyState (inKey : Bool) : Bytes → Bool
  | [] => inKey
  | c :: s =>
    if isValueEnd c then keyState true s
    else if c = chr '=' then keyState false s
    else keyState inKey s

theorem keyLen_append (t : Bytes) : ∀ (s : Bytes) (inKey : Bool),
    keyLen inKey (s ++ t) = keyLen inKey s + keyLen (keyState inKey s) t
  | [], inKey => (zero_add _).symm
  | c :: s, inKey => by
    rw [cons_append, keyLen, keyLen, keyState]
    split_ifs with hend heq
    · exact keyLen_append t s true
    · exact keyLen_append t s false
    · rw [keyLen_append t s inKey, add_assoc]
    · rw [keyLen_append t s inKey, add_assoc]

theorem isKeyChar_iff' : isKeyChar c = true ↔ isKeyEnd c = false ∧ c ≠ chr '#' := by
  simp [isKeyChar]

theorem isKeyChar_iff : isKeyChar c = true ↔ isValueEnd c = false ∧ c ≠ chr '=' ∧ c ≠ chr '#' :=
  forall_uint8 (P := fun c =>
    isKeyChar c = true ↔ isValueEnd c = false ∧ c ≠ chr '=' ∧ c ≠ chr '#') (by decide +kernel) c

theorem keyLen_le_countP : ∀ (s : Bytes) (inKey : Bool), keyLen inKey s ≤ s.countP isKeyChar
  | [], _ => le_rfl
  | c :: s, inKey => by
    have hrest : ∀ b, keyLen b s ≤ (c :: s).countP isKeyChar := fun b =>
      (keyLen_le_countP s b).trans (List.countP_cons ▸ le_add_right _ _)
    rw [keyLen]
    split_ifs with hend heq hkey
    · exact hrest true
    · exact hrest false
    · rw [Bool.and_eq_true, bne_iff_ne] at hkey
      have hchar : isKeyChar c = true :=
        isKeyChar_iff.mpr ⟨Bool.eq_false_iff.mpr hend, heq, hkey.2⟩
      rw [List.countP_cons_of_pos hchar, add_comm]
      exact succ_le_succ (keyLen_le_countP s inKey)
    · rw [zero_add]
      exact hrest inKey

/-- A key is read to its end. -/
theorem keyLen_key (h : ∀ c ∈ s, isKeyChar c = true) :
    keyLen true s = s.length ∧ keyState true s = true := by
  induction s with
  | nil => exact ⟨rfl, rfl⟩
  | cons c s ih =>
    obtain ⟨hend, heq, hpound⟩ := isKeyChar_iff.mp (h c mem_cons_self)
    obtain ⟨hlen, hstate⟩ := ih fun d hd => h d (mem_cons_of_mem _ hd)
    simp [keyLen, keyState, hend, heq, hpound, hlen, hstate, add_comm]

/-- In a value no key is read. -/
theorem keyLen_value (h : ∀ c ∈ s, isValueEnd c = false) :
    keyLen false s = 0 ∧ keyState false s = false := by
  induction s with
  | nil => exact ⟨rfl, rfl⟩
  | cons c s ih =>
    have hend := h c mem_cons_self
    obtain ⟨hlen, hstate⟩ := ih fun d hd => h d (mem_cons_of_mem _ hd)
    simp [keyLen, keyState, hend, hlen, hstate]

/-- The bytes of the keys of a map. -/
def keySum (m : QueryMap) : Nat := (m.entries.map fun e => e.1.length).sum

theorem keySum_insert_le (m : QueryMap) (key : Bytes) (value : Option Bytes) :
    keySum (m.insert key value) ≤ keySum m + key.length := by
  have herase : ((m.erase key).entries.map fun e => e.1.length).sum ≤ keySum m :=
    List.Sublist.sum_le_sum ((List.kerase_sublist key m.entries).map _) fun _ _ => zero_le _
  have hinsert : keySum (m.insert key value)
      = key.length + ((m.erase key).entries.map fun e => e.1.length).sum := rfl
  omega

theorem keySum_eq {l : List (Bytes × Option Bytes)} (hnd : (l.map (·.1)).Nodup)
    (h : ∀ k v, m.lookup k = some v ↔ (k, v) ∈ l) : keySum m = (l.map fun p => p.1.length).sum := by
  have hperm : (m.entries.map fun e => (e.1, e.2)).Perm l := by
    refine (List.perm_ext_iff_of_nodup ?_ (List.Nodup.of_map _ hnd)).mpr ?_
    · refine List.Nodup.of_map (f := Prod.fst) ?_
      rw [List.map_map]
      exact m.nodupKeys
    · rintro ⟨k, v⟩
      rw [← h, ← UMap.mem_entries_iff, mem_map]
      constructor
      · rintro ⟨e, he, heq⟩
        cases heq
        exact he
      · exact fun he => ⟨⟨k, v⟩, he, rfl⟩
  have hsum := (hperm.map fun p => p.1.length).sum_eq
  rw [List.map_map] at hsum
  exact hsum

/-- Decoding makes no text longer, and one with a '%' shorter. -/
theorem length_decodeFrom : ∀ (n : Nat) {t : Bytes} {i : Nat}
    {d : Bytes}, t.length ≤ n → decodeFrom check s i t = .ok d →
      d.length ≤ t.length ∧ (chr '%' ∈ t → d.length < t.length)
  | n, [], i, d, _, h => by
    obtain rfl := Except.ok.inj ((decodeFrom_nil check s i).symm.trans h)
    exact ⟨le_rfl, nofun⟩
  | n + 1, c :: cs, i, d, hn, h => by
    rw [length_cons] at hn
    by_cases hc : c = chr '%'
    · rw [decodeFrom, if_pos (by simpa using hc)] at h
      split_ifs at h
      cases cs with
      | nil => cases h
      | cons c' cs =>
        rw [length_cons] at hn
        split at h
        · cases h
        · obtain ⟨d', hd', rfl⟩ := map_eq_ok.mp h
          have hdrop : ((c' :: cs).drop 2).length = cs.length - 1 := by simp
          have hlen := (length_decodeFrom n (by omega) hd').1
          simp only [length_cons]
          omega
    · rw [decodeFrom_cons_of_ne check s i hc] at h
      obtain ⟨d', hd', rfl⟩ := map_eq_ok.mp h
      obtain ⟨hle, hlt⟩ := length_decodeFrom n (by omega) hd'
      refine ⟨succ_le_succ hle, fun hmem => succ_lt_succ (hlt ?_)⟩
      exact (mem_cons.mp hmem).resolve_left (Ne.symm hc)

theorem length_decode {d : Bytes} (h : decode check s = .ok d) :
    d.length ≤ s.length ∧ (chr '%' ∈ s → d.length < s.length) :=
  length_decodeFrom s.length le_rfl h

/-- What a round of the reader passes over behind a key. -/
inductive Skips : Bytes → Bytes → Prop
  | done : Skips [] []
  | bare {e rest} (hend : isValueEnd e = true) : Skips (e :: rest) rest
  | lastValue {value} (hvalue : ∀ c ∈ value, isValueEnd c = false) : Skips (chr '=' :: value) []
  | value {value e rest} (hvalue : ∀ c ∈ value, isValueEnd c = false)
      (hend : isValueEnd e = true) : Skips (chr '=' :: (value ++ e :: rest)) rest

theorem Skips.keyLen_eq (h : Skips tail rest) (inKey : Bool) :
    keyLen inKey tail = keyLen true rest := by
  cases h with
  | done => rfl
  | bare hend => rw [keyLen, if_pos hend]
  | lastValue hval =>
    show (if _ then _ else if _ then _ else _ : Nat) = 0
    rw [if_neg (by decide), if_pos rfl, (keyLen_value hval).1]
  | value hval hend =>
    rw [keyLen, if_neg (by decide), if_pos rfl, keyLen_append, (keyLen_value hval).1,
      (keyLen_value hval).2, keyLen, if_pos hend, zero_add]

theorem Skips.length_le (h : Skips tail rest) :
    rest.length ≤ tail.length ∧ (tail ≠ [] → rest.length < tail.length) := by
  cases h with
  | done => exact ⟨le_rfl, fun h => absurd rfl h⟩
  | bare hend => simp
  | lastValue hval => simp
  | value hval hend =>
    simp only [length_cons, List.length_append]
    omega

theorem Skips.subset (h : Skips tail rest) : rest ⊆ tail := by
  cases h with
  | done => exact List.Subset.refl _
  | bare hend => exact List.subset_cons_self _ _
  | lastValue hval => exact List.nil_subset _
  | value hval hend =>
    intro c hc
    exact mem_cons_of_mem _ (List.mem_append_right _ (mem_cons_of_mem _ hc))

/-- A text up to the first byte with a property. -/
theorem exists_split (p : UInt8 → Bool) : ∀ s : Bytes, ∃ a b, s = a ++ b ∧ (∀ c ∈ a, p c = false) ∧
    (b = [] ∨ ∃ e b', b = e :: b' ∧ p e = true)
  | [] => ⟨[], [], rfl, nofun, Or.inl rfl⟩
  | c :: s => by
    by_cases hc : p c = true
    · exact ⟨[], c :: s, rfl, nofun, Or.inr ⟨c, s, rfl, hc⟩⟩
    · obtain ⟨a, b, rfl, ha, hb⟩ := exists_split p s
      exact ⟨c :: a, b, rfl, List.forall_mem_cons.mpr ⟨Bool.eq_false_iff.mpr hc, ha⟩, hb⟩

theorem isValueEnd_of_isKeyEnd (h : isKeyEnd c = true) (hne : c ≠ chr '=') : isValueEnd c = true :=
  forall_uint8 (P := fun c => isKeyEnd c = true → c ≠ chr '=' → isValueEnd c = true)
    (by decide +kernel) c h hne

/-- One round of the reader: a key is read, as it is or decoded, and then the rest. -/
theorem parseParams_round {m' : QueryMap} (hne : s ≠ []) (h : parseParams check s m = .ok m') :
    ∃ key key' value tail rest, s = key ++ tail ∧ (∀ c ∈ key, isKeyEnd c = false) ∧
      (key ≠ [] ∨ tail ≠ []) ∧ (key' = key ∨ decode check key = .ok key') ∧ Skips tail rest ∧
      parseParams check rest (m.insert key' value) = .ok m' := by
  obtain ⟨key, tail, rfl, hkey, htail⟩ := exists_split isKeyEnd s
  rcases htail with rfl | ⟨separator, rest, rfl, hend⟩
  · rw [append_nil] at hne h
    rw [parseParams_lastKey hkey hne] at h
    refine ⟨key, key, none, [], [], rfl, hkey, Or.inl hne, Or.inl rfl, .done, ?_⟩
    rw [parseParams_nil]
    exact h
  · rw [parseParams_key hkey hend] at h
    obtain ⟨key', hdecode, h⟩ := bind_eq_ok.mp h
    suffices hrnd : ∃ value rest', Skips (separator :: rest) rest' ∧
        parseParams check rest' (m.insert key' value) = .ok m' by
      obtain ⟨value, rest', hskips, hrest⟩ := hrnd
      exact ⟨key, key', value, separator :: rest, rest', rfl, hkey, Or.inr (by simp),
        Or.inr hdecode, hskips, hrest⟩
    by_cases heq : separator = chr '='
    · subst heq
      rw [if_neg (by simp)] at h
      obtain ⟨value, tail, rfl, hval, htail⟩ := exists_split isValueEnd rest
      by_cases hemp : (value ++ tail).isEmpty = true
      · rw [if_pos hemp, ← parseParams_nil check] at h
        rw [List.isEmpty_iff] at hemp
        exact ⟨none, [], by rw [hemp]; exact .lastValue nofun, h⟩
      · rw [if_neg hemp] at h
        dsimp only at h
        rcases htail with rfl | ⟨e, rest, rfl, hend⟩
        · have htake : value.takeWhile (fun c => !isValueEnd c) = value :=
            List.takeWhile_eq_self_iff.mpr (by simpa using hval)
          rw [append_nil, htake, List.drop_length] at h
          obtain ⟨value', -, h⟩ := bind_eq_ok.mp h
          rw [← parseParams_nil check] at h
          exact ⟨_, [], by rw [append_nil]; exact .lastValue hval, h⟩
        · rw [takeWhile_append_end hval hend, drop_left] at h
          obtain ⟨value', -, h⟩ := bind_eq_ok.mp h
          exact ⟨_, rest, .value hval hend, h⟩
    · rw [if_pos (by simpa using heq)] at h
      exact ⟨none, rest, .bare (isValueEnd_of_isKeyEnd hend heq), h⟩

/-- The keys that are read have no more bytes than the text has for keys. -/
theorem keySum_le_keyLen : ∀ (n : Nat) {s : Bytes} {m m' : QueryMap},
    s.length ≤ n → (∀ c ∈ s, c ≠ chr '#') → parseParams check s m = .ok m' →
      keySum m' ≤ keySum m + keyLen true s
  | n, [], m, m', _, _, h => by
    obtain rfl := Except.ok.inj ((parseParams_nil check m).symm.trans h)
    exact le_rfl
  | n + 1, c :: cs, m, m', hn, hpound, h => by
    obtain ⟨key, key', value, _, rest, hs, hkey, hsome, hread, hskips, hrest⟩ :=
      parseParams_round (by simp) h
    rw [hs] at hn hpound ⊢
    rw [List.length_append] at hn
    have hlen := hskips.length_le
    have hshort : rest.length ≤ n := by
      rcases hsome with hsome | hsome
      · have := List.length_pos_iff.mpr hsome
        omega
      · have := hlen.2 hsome
        omega
    have hih := keySum_le_keyLen n hshort
      (fun c hc => hpound c (List.mem_append_right _ (hskips.subset hc))) hrest
    have hkeyLen : keyLen true key = key.length ∧ keyState true key = true :=
      keyLen_key fun d hd => by
        rw [isKeyChar, hkey d hd]
        simpa using hpound d (List.mem_append_left _ hd)
    have hle : key'.length ≤ key.length := by
      rcases hread with rfl | hdecode
      · exact le_rfl
      · exact (length_decode hdecode).1
    have hinsert := keySum_insert_le m key' value
    rw [keyLen_append, hkeyLen.1, hskips.keyLen_eq]
    omega

theorem keyLen_writeParam_le (p : Bytes × Option Bytes) (inKey : Bool) :
    keyLen inKey (writeParam id p) ≤ p.1.countP isKeyChar := by
  obtain ⟨key, value⟩ := p
  cases value with
  | none =>
    rw [writeParam, append_nil]
    exact keyLen_le_countP key inKey
  | some value =>
    have hskips : Skips (chr '=' :: encode value) [] := .lastValue fun c hc =>
      not_isValueEnd_of_not_isKeyEnd (not_isKeyEnd_of_mem_encode hc)
    rw [writeParam, keyLen_append, hskips.keyLen_eq]
    exact keyLen_le_countP key inKey

theorem keyLen_flatMap_le : ∀ (params : List (Bytes × Option Bytes)) (inKey : Bool),
    keyLen inKey (params.flatMap fun q => chr '&' :: writeParam id q)
      ≤ (params.map fun p => p.1.countP isKeyChar).sum
  | [], _ => le_rfl
  | p :: params, inKey => by
    rw [List.flatMap_cons, cons_append, keyLen, if_pos (by decide), keyLen_append,
      map_cons, sum_cons]
    exact Nat.add_le_add (keyLen_writeParam_le p true) (keyLen_flatMap_le params _)

theorem keyLen_writeQuery_le (params : List (Bytes × Option Bytes)) :
    keyLen true (writeQuery id params) ≤ (params.map fun p => p.1.countP isKeyChar).sum := by
  cases params with
  | nil => exact le_rfl
  | cons p params =>
    rw [writeQuery, keyLen_append, map_cons, sum_cons]
    exact Nat.add_le_add (keyLen_writeParam_le p true) (keyLen_flatMap_le params _)

/-- If the keys that are read have all bytes of the keys that were written,
these have key characters only. -/
theorem isKeyChar_of_keySum
    (h : parseParams .relaxed ((writeQuery id params).takeWhile (· != chr '#')) ∅ = .ok m)
    (hsum : keySum m = (params.map fun p => p.1.length).sum) :
    ∀ p ∈ params, ∀ c ∈ p.1, isKeyChar c = true := by
  have hread := keySum_le_keyLen _ le_rfl (fun c hc => by
    simpa using List.mem_takeWhile_imp hc) h
  obtain ⟨_, hrest⟩ := List.takeWhile_prefix (l := writeQuery id params) (· != chr '#')
  have hwhole := keyLen_writeQuery_le params
  rw [← hrest, keyLen_append] at hwhole
  have hemp : keySum ∅ = 0 := rfl
  intro p hp
  by_contra hnot
  have hlt : p.1.countP isKeyChar < p.1.length :=
    lt_of_le_of_ne List.countP_le_length fun heq => hnot (List.countP_eq_length.mp heq)
  have hsumlt := List.sum_lt_sum (fun p : Bytes × Option Bytes => p.1.countP isKeyChar)
    (fun p => p.1.length) (fun p _ => List.countP_le_length) ⟨p, hp, hlt⟩
  omega

/-- The last key is not read longer than it was written, and one with a '%'
and a value is read shorter. -/
theorem keySum_writeLast_le (hlast : ∀ c ∈ last.1, isKeyEnd c = false) {m' : QueryMap}
    (h : parseParams .relaxed (writeParam id last) m = .ok m') :
    keySum m' ≤ keySum m + last.1.length ∧
      (last.2.isSome = true ∧ chr '%' ∈ last.1 → keySum m' < keySum m + last.1.length) := by
  obtain ⟨key, value⟩ := last
  cases value with
  | none =>
    refine ⟨?_, fun hsome => absurd hsome.1 (by simp)⟩
    rw [writeParam, append_nil] at h
    by_cases hemp : key = []
    · rw [hemp] at h
      obtain rfl := Except.ok.inj ((parseParams_nil .relaxed m).symm.trans h)
      exact le_add_right _ _
    · obtain rfl := Except.ok.inj ((parseParams_lastKey hlast hemp).symm.trans h)
      exact keySum_insert_le m key none
  | some value =>
    rw [writeParam, id, parseParams_lastKeyValue hlast] at h
    obtain ⟨key', hdecode, h⟩ := bind_eq_ok.mp h
    cases h
    obtain ⟨hle, hlt⟩ := length_decode hdecode
    have hinsert := keySum_insert_le m key' (if value.isEmpty then none else some value)
    exact ⟨by omega, fun hpercent => by have := hlt hpercent.2; omega⟩

/-- Keys with a '%' lose bytes, unless the key is the last and stands alone. -/
theorem keySum_writeQuery_le (hlast : ∀ c ∈ last.1, isKeyEnd c = false) :
    ∀ {params : List (Bytes × Option Bytes)} {m m' : QueryMap},
      (∀ p ∈ params, ∀ c ∈ p.1, isKeyEnd c = false) →
      parseParams .relaxed (writeQuery id (params ++ [last])) m = .ok m' →
      keySum m' ≤ keySum m + ((params ++ [last]).map fun p => p.1.length).sum ∧
        ((∃ p ∈ params, chr '%' ∈ p.1) ∨ last.2.isSome = true ∧ chr '%' ∈ last.1 →
          keySum m' < keySum m + ((params ++ [last]).map fun p => p.1.length).sum)
  | [], m, m', _, h => by
    rw [nil_append, writeQuery, List.flatMap_nil, append_nil] at h
    obtain ⟨hle, hlt⟩ := keySum_writeLast_le hlast h
    rw [nil_append, List.map_singleton, List.sum_singleton]
    refine ⟨hle, ?_⟩
    rintro (⟨p, hp, -⟩ | hpercent)
    · cases hp
    · exact hlt hpercent
  | p :: params, m, m', hpar, h => by
    obtain ⟨q, rest, hrest⟩ : ∃ q rest, params ++ [last] = q :: rest := by
      cases params with
      | nil => exact ⟨last, [], rfl⟩
      | cons q params => exact ⟨q, params ++ [last], rfl⟩
    rw [cons_append, hrest, writeQuery_cons_cons, ← hrest,
      parseParams_writeParam (hpar p mem_cons_self)] at h
    obtain ⟨key, hdecode, h⟩ := bind_eq_ok.mp h
    obtain ⟨hle, hlt⟩ :=
      keySum_writeQuery_le hlast (fun q hq => hpar q (mem_cons_of_mem _ hq)) h
    have hinsert := keySum_insert_le m key p.2
    obtain ⟨hkey, hpercentKey⟩ := length_decode hdecode
    rw [id] at hkey hpercentKey
    rw [cons_append, map_cons, sum_cons]
    refine ⟨by omega, ?_⟩
    rintro (⟨q, hq, hpercent⟩ | hpercent)
    · rcases mem_cons.mp hq with rfl | hq
      · have := hpercentKey hpercent
        omega
      · have := hlt (Or.inl ⟨q, hq, hpercent⟩)
        omega
    · have := hlt (Or.inr hpercent)
      omega

/-! ## Which topics come back -/

theorem readLast_id_eq_iff : readLast id p = [p] ↔ p ≠ ([], none) ∧ p.2 ≠ some [] := by
  obtain ⟨key, value⟩ := p
  cases value with
  | none =>
    cases key with
    | nil => simp [readLast]
    | cons c key => simp [readLast]
  | some value =>
    cases value with
    | nil => simp [readLast]
    | cons c value => simp [readLast]

/-- Keys of key characters are written without '#'. -/
theorem takeWhile_writeQuery (h : ∀ p ∈ params, ∀ c ∈ p.1, isKeyChar c = true) :
    (writeQuery id params).takeWhile (· != chr '#') = writeQuery id params := by
  have hparam : ∀ p ∈ params, ∀ c ∈ writeParam id p, c ≠ chr '#' := by
    rintro ⟨_, value⟩ hp c hc
    rcases mem_append.mp hc with hc | hc
    · exact (isKeyChar_iff.mp (h _ hp c hc)).2.2
    · cases value with
      | none => cases hc
      | some value =>
        rcases mem_cons.mp hc with rfl | hc
        · decide
        · exact (special_of_mem_encode hc).1
  refine List.takeWhile_eq_self_iff.mpr fun c hc => ?_
  rw [bne_iff_ne]
  cases params with
  | nil => cases hc
  | cons p params =>
    rcases mem_append.mp hc with hc | hc
    · exact hparam p mem_cons_self c hc
    · obtain ⟨q, hq, hc⟩ := List.mem_flatMap.mp hc
      rcases mem_cons.mp hc with rfl | hc
      · decide
      · exact hparam q (mem_cons_of_mem _ hq) c hc

theorem zmq_readBack_iff (hnd : ((params ++ [last]).map (·.1)).Nodup) :
    (∃ m, parseParams .relaxed
        ((writeQuery id (params ++ [last])).takeWhile (· != chr '#')) ∅ = .ok m ∧
      ∀ k v, m.lookup k = some v ↔ (k, v) ∈ params ++ [last]) ↔
    (∀ p ∈ params ++ [last], ∀ c ∈ p.1, isKeyChar c = true) ∧ (∀ p ∈ params, chr '%' ∉ p.1) ∧
      last ≠ ([], none) ∧ last.2 ≠ some [] ∧ (last.2.isSome = true → chr '%' ∉ last.1) := by
  have hread : (∀ p ∈ params ++ [last], ∀ c ∈ p.1, isKeyChar c = true) →
      (∀ p ∈ params, chr '%' ∉ p.1) → (last.2.isSome = true → chr '%' ∉ last.1) →
      parseParams .relaxed ((writeQuery id (params ++ [last])).takeWhile (· != chr '#')) ∅
        = .ok (insertAll (insertAll ∅ params) (readLast id last)) := by
    intro hchars hpar hlast
    have hfree : ∀ p ∈ params ++ [last], ∀ c ∈ p.1, isKeyEnd c = false := fun p hp c hc =>
      (isKeyChar_iff'.mp (hchars p hp c hc)).1
    rw [takeWhile_writeQuery hchars, parseParams_writeQuery fun p hp =>
      ⟨hfree p (List.mem_append_left _ hp), decode_eq_self _ (hpar p hp)⟩]
    exact parseParams_writeLast (hfree last (List.mem_append_right _ mem_cons_self))
      (fun hsome => decode_eq_self _ (hlast hsome)) _
  constructor
  · rintro ⟨m, hm, hall⟩
    have hsum := keySum_eq hnd hall
    have hchars := isKeyChar_of_keySum hm hsum
    have hfree : ∀ p ∈ params ++ [last], ∀ c ∈ p.1, isKeyEnd c = false := fun p hp c hc =>
      (isKeyChar_iff'.mp (hchars p hp c hc)).1
    have hpercent := (keySum_writeQuery_le (hfree last (List.mem_append_right _ mem_cons_self))
      (fun p hp => hfree p (List.mem_append_left _ hp))
      (by rw [← takeWhile_writeQuery hchars]; exact hm)).2
    have hemp : keySum ∅ = 0 := rfl
    have hpar : ∀ p ∈ params, chr '%' ∉ p.1 := fun p hp hmem => by
      have := hpercent (Or.inl ⟨p, hp, hmem⟩)
      omega
    have hlast : last.2.isSome = true → chr '%' ∉ last.1 := fun hsome hmem => by
      have := hpercent (Or.inr ⟨hsome, hmem⟩)
      omega
    obtain rfl := Except.ok.inj (hm.symm.trans (hread hchars hpar hlast))
    obtain ⟨hne, hval⟩ := readLast_id_eq_iff.mp ((insertAll_readLast_iff hnd).mp hall)
    exact ⟨hchars, hpar, hne, hval, hlast⟩
  · rintro ⟨hchars, hpar, hne, hval, hlast⟩
    refine ⟨_, hread hchars hpar hlast, (insertAll_readLast_iff hnd).mpr ?_⟩
    exact readLast_id_eq_iff.mpr ⟨hne, hval⟩

/-- Every topic can be given to `fromString`. -/
theorem fromString_service (t : Topic) : fromString t.service t.params = .ok t :=
  make_service t.valid t.params

theorem zmq_topic_roundTrip_iff (t : Topic) (delimitWithPound : Bool) :
    Topic.fromZmqTopic (t.toZmqTopicWith delimitWithPound) = .ok t ↔ ZmqReadable t := by
  by_cases hemp : t.params = ∅
  · have hents : t.params.entries = [] := Topic.params_eq_empty_iff.mp hemp
    refine iff_of_true ?_ (by rw [ZmqReadable, hents]; exact ⟨nofun, nofun, nofun⟩)
    have hsvc : Topic.fromString t.service ∅ = .ok t := hemp ▸ fromString_service t
    rw [Topic.toZmqTopicWith_eq, Topic.zmqBody, if_pos hemp, append_nil, Topic.fromZmqTopic]
    cases delimitWithPound with
    | true =>
      rw [if_pos rfl, show str "#" = [chr '#'] from rfl, getLast?_concat,
        dropLast_concat, beq_self_eq_true, if_pos rfl]
      exact hsvc
    | false =>
      rw [if_neg Bool.false_ne_true, append_nil, if_neg]
      · exact hsvc
      · intro hlast
        have hmem := List.mem_of_getLast? (beq_iff_eq.mp hlast)
        exact (not_pound_of_mem_service hmem).1 rfl
  · have hnd := t.params.keys_nodup
    rw [fromZmqTopic_eq hemp, readTopic_eq_ok_iff, ZmqReadable]
    rcases List.eq_nil_or_concat t.params.entries with hnil | ⟨_, _, hents⟩
    · exact absurd (Topic.params_eq_empty_iff.mpr hnil) hemp
    · rw [SortedMap.keys, hents, List.concat_eq_append] at hnd
      rw [hents, List.concat_eq_append, zmq_readBack_iff hnd, dropLast_concat,
        getLast?_concat]
      simp only [isKeyChar_iff', Option.mem_def, Option.some.injEq, forall_eq']

/-- A topic with a '&' in a key, as a client may ask for it. -/
def ampersandTopic : Topic where
  service := str "/service"
  params := SortedMap.insert ∅ (str "a&b") (some (str "1"))
  valid := isValidServiceName_service

/-- The key falls apart. -/
theorem ampersand_in_key_is_lost :
    ((Uri.ofBytes .strict (str "/service?a%26b=1")).toOption.bind fun uri =>
      (Topic.fromMdpTopic uri).toOption) = some ampersandTopic ∧
    ∀ delimitWithPound, ∃ t,
      (Topic.fromZmqTopic (ampersandTopic.toZmqTopicWith delimitWithPound)).toOption = some t ∧
      t.params.entries = [(str "a", none), (str "b", some (str "1"))] ∧ t ≠ ampersandTopic := by
  refine ⟨by decide +kernel, fun delimitWithPound => ?_⟩
  refine ⟨⟨str "/service", (SortedMap.insert ∅ (str "b") (some (str "1"))).insert (str "a") none,
    by decide⟩, ?_⟩
  cases delimitWithPound <;> decide +kernel

end OpenCmw
