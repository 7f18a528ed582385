import OpenCmw.MdpTopic

/-!
# Queries, written and read back

A query is written as `key[=value]` parts joined by '&'; values are percent
coded, and keys are written by some function `w` - the URI factory codes
them, the ZMQ form of a topic writes them as they are. `queryParamMap` reads
such a text part by part, and takes another way for the last part than for
the others: a key that stands alone is not decoded, and an empty value is no
value. So a part that is not the last is read as what it was
(`parseParams_writeParam`), and what becomes of the last is `readLast`.
-/

namespace OpenCmw

open List

/-! ## Percent coding -/

theorem hexByte_hexChar (c : UInt8) : (hexDigit (hexChar (c / 16))).isSome = true ∧
    hexByte [hexChar (c / 16), hexChar (c % 16)] = some c :=
  forall_uint8 (P := fun c => (hexDigit (hexChar (c / 16))).isSome = true ∧
    hexByte [hexChar (c / 16), hexChar (c % 16)] = some c) (by decide +kernel) c

variable {c : UInt8} {s : Bytes}

theorem ne_percent_of_isUnreserved (h : isUnreserved c = true) : c ≠ chr '%' := by
  rintro rfl
  exact absurd h (by decide)

@[simp] theorem encode_nil : encode [] = [] := rfl

theorem encode_cons_of_isUnreserved (h : isUnreserved c = true) (s : Bytes) :
    encode (c :: s) = c :: encode s := by
  rw [encode, flatMap_cons, if_pos h]
  rfl

theorem encode_cons_of_not_isUnreserved (h : ¬isUnreserved c = true) (s : Bytes) :
    encode (c :: s) = chr '%' :: hexChar (c / 16) :: hexChar (c % 16) :: encode s := by
  rw [encode, flatMap_cons, if_neg h]
  rfl

variable (check : UriCheck)

theorem decodeFrom_nil (s : Bytes) (i : Nat) : decodeFrom check s i [] = .ok [] := by
  rw [decodeFrom]

theorem decodeFrom_cons_of_ne (s : Bytes) (i : Nat) (h : c ≠ chr '%') (cs : Bytes) :
    decodeFrom check s i (c :: cs) = (decodeFrom check s (i + 1) cs).map (c :: ·) := by
  rw [decodeFrom, if_neg (by simpa using h)]

theorem decodeFrom_encode (check : UriCheck) (s : Bytes) : ∀ (t : Bytes) (i : Nat),
    decodeFrom check s i (encode t) = .ok t
  | [], i => decodeFrom_nil check s i
  | c :: t, i => by
    by_cases hc : isUnreserved c = true
    · rw [encode_cons_of_isUnreserved hc,
        decodeFrom_cons_of_ne check s i (ne_percent_of_isUnreserved hc), decodeFrom_encode]
      rfl
    · obtain ⟨hdigit, hbyte⟩ := hexByte_hexChar c
      have hstrict : ¬(check == .strict && ((hexDigit (hexChar (c / 16))).isNone)) = true := by
        rw [← Option.not_isSome, hdigit]
        simp
      rw [encode_cons_of_not_isUnreserved hc, decodeFrom, if_pos (by simp), head?_cons,
        Option.bind_some, if_neg hstrict]
      simp only [take_succ_cons, take_zero, drop_succ_cons, drop_zero, hbyte]
      rw [decodeFrom_encode]
      rfl

theorem decode_encode (s : Bytes) : decode check (encode s) = .ok s :=
  decodeFrom_encode check _ s 0

theorem encode_injective : Function.Injective encode := fun s t h =>
  Except.ok.inj ((decode_encode .strict s).symm.trans ((congrArg _ h).trans (decode_encode .strict t)))

theorem encode_eq_nil_iff : encode s = [] ↔ s = [] :=
  encode_injective.eq_iff (b := [])

theorem length_le_length_encode (s : Bytes) : s.length ≤ (encode s).length := by
  induction s with
  | nil => exact le_rfl
  | cons c s ih =>
    by_cases hc : isUnreserved c = true
    · rw [encode_cons_of_isUnreserved hc]
      exact Nat.succ_le_succ ih
    · rw [encode_cons_of_not_isUnreserved hc]
      simp only [length_cons]
      omega

/-- Exactly the unreserved texts are written as they are. -/
theorem encode_eq_self_iff : encode s = s ↔ ∀ c ∈ s, isUnreserved c = true := by
  induction s with
  | nil => simp
  | cons c s ih =>
    by_cases hc : isUnreserved c = true
    · rw [encode_cons_of_isUnreserved hc, cons_inj_right, ih, forall_mem_cons]
      exact ⟨fun h => ⟨hc, h⟩, And.right⟩
    · refine iff_of_false (fun h => ?_) fun h => hc (h c mem_cons_self)
      have hlen := congrArg length h
      have hle := length_le_length_encode s
      rw [encode_cons_of_not_isUnreserved hc] at hlen
      simp only [length_cons] at hlen
      omega

theorem decode_eq_self (h : chr '%' ∉ s) : decode check s = .ok s := by
  have hfrom : ∀ (t : Bytes) (i : Nat), chr '%' ∉ t → decodeFrom check s i t = .ok t := by
    intro t
    induction t with
    | nil => exact fun i _ => decodeFrom_nil check s i
    | cons c t ih =>
      intro i hc
      obtain ⟨hne, ht⟩ := not_or.mp (mem_cons.not.mp hc)
      rw [decodeFrom_cons_of_ne check s i (Ne.symm hne), ih (i + 1) ht]
      rfl
  exact hfrom s 0 h

/-! ## Reading one part -/

/-- What ends a key. -/
def isKeyEnd (c : UInt8) : Bool := (str "=;&").contains c

/-- What ends a value. -/
def isValueEnd (c : UInt8) : Bool := (str ";&").contains c

theorem not_isKeyEnd_of_mem_encode (h : c ∈ encode s) : isKeyEnd c = false := by
  have hcoded : ∀ c, (isUnreserved c = true ∨ c = chr '%') → isKeyEnd c = false :=
    forall_uint8 (by decide +kernel)
  have hhex : ∀ d, isUnreserved (hexChar (d / 16)) = true ∧ isUnreserved (hexChar (d % 16)) = true :=
    forall_uint8 (by decide +kernel)
  obtain ⟨d, -, hc⟩ := mem_flatMap.mp h
  split_ifs at hc with hd
  · rw [mem_singleton.mp hc]
    exact hcoded d (Or.inl hd)
  · simp only [mem_cons, not_mem_nil, or_false] at hc
    rcases hc with rfl | rfl | rfl
    · exact hcoded _ (Or.inr rfl)
    · exact hcoded _ (Or.inl (hhex d).1)
    · exact hcoded _ (Or.inl (hhex d).2)

theorem not_isValueEnd_of_not_isKeyEnd (h : isKeyEnd c = false) : isValueEnd c = false :=
  forall_uint8 (P := fun c => isKeyEnd c = false → isValueEnd c = false) (by decide +kernel) c h

theorem takeWhile_append_end {p : UInt8 → Bool} (hs : ∀ c ∈ s, p c = false)
    {e : UInt8} (he : p e = true) (rest : Bytes) :
    (s ++ e :: rest).takeWhile (fun c => !p c) = s := by
  rw [takeWhile_append_of_pos (by simpa using hs), takeWhile_cons_of_neg (by simpa using he),
    append_nil]

section

variable {check : UriCheck} {key value rest : Bytes} {m : QueryMap}

@[simp] theorem parseParams_nil (check : UriCheck) (m : QueryMap) :
    parseParams check [] m = .ok m := by
  rw [parseParams]
  rfl

variable (hkey : ∀ c ∈ key, isKeyEnd c = false)
include hkey

/-- A key that ends the query. -/
theorem parseParams_lastKey (hne : key ≠ []) :
    parseParams check key m = .ok (m.insert key none) := by
  have htake : key.takeWhile (fun c => !(str "=;&").contains c) = key :=
    takeWhile_eq_self_iff.mpr (by simpa [isKeyEnd] using hkey)
  rw [parseParams, if_neg (by simpa using hne)]
  dsimp only
  split
  · rfl
  · rename_i separator rest hdrop
    rw [htake, drop_length] at hdrop
    cases hdrop

/-- A key with something behind it. -/
theorem parseParams_key {separator : UInt8}
    (hseparator : isKeyEnd separator = true) :
    parseParams check (key ++ separator :: rest) m = (decode check key).bind fun key =>
      if separator != chr '=' then parseParams check rest (m.insert key none)
      else if rest.isEmpty then .ok (m.insert key none)
      else
        let value := rest.takeWhile fun c => !isValueEnd c
        match rest.drop value.length with
        | [] => (decode check value).bind fun value =>
          .ok (m.insert key (if value.isEmpty then none else some value))
        | _ :: rest => (decode check value).bind fun value =>
          parseParams check rest (m.insert key (some value)) := by
  have htake : (key ++ separator :: rest).takeWhile (fun c => !(str "=;&").contains c) = key :=
    takeWhile_append_end hkey hseparator rest
  rw [parseParams, if_neg (by simp)]
  dsimp only
  split
  · rename_i hdrop
    rw [htake, drop_left] at hdrop
    cases hdrop
  · rename_i separator' rest' hdrop
    rw [htake, drop_left] at hdrop
    obtain ⟨rfl, rfl⟩ := cons.inj hdrop
    rw [htake]
    refine congrArg (Except.bind (decode check key)) (funext fun key => ?_)
    split_ifs
    · rfl
    · rfl
    · split
      · rename_i hval
        simp only [isValueEnd, hval]
        rfl
      · rename_i hval
        simp only [isValueEnd, hval]
        rfl

/-- A bare key that is not the last. -/
theorem parseParams_bareKey : parseParams check (key ++ chr '&' :: rest) m
      = (decode check key).bind fun key => parseParams check rest (m.insert key none) := by
  rw [parseParams_key hkey (by decide)]
  rfl

/-- A key with a value that is not the last. -/
theorem parseParams_keyText {text : Bytes}
    (htext : ∀ c ∈ text, isValueEnd c = false) :
    parseParams check (key ++ chr '=' :: (text ++ chr '&' :: rest)) m
      = (decode check key).bind fun key => (decode check text).bind fun value =>
          parseParams check rest (m.insert key (some value)) := by
  have htake : (text ++ chr '&' :: rest).takeWhile (fun c => !isValueEnd c) = text :=
    takeWhile_append_end htext (by decide) rest
  rw [parseParams_key hkey (by decide)]
  refine congrArg (Except.bind (decode check key)) (funext fun key => ?_)
  rw [if_neg (by simp), if_neg (by simp)]
  dsimp only
  rw [htake, drop_left]

theorem parseParams_keyValue :
    parseParams check (key ++ chr '=' :: (encode value ++ chr '&' :: rest)) m
      = (decode check key).bind fun key => parseParams check rest (m.insert key (some value)) := by
  rw [parseParams_keyText hkey fun c hc =>
    not_isValueEnd_of_not_isKeyEnd (not_isKeyEnd_of_mem_encode hc), decode_encode]
  rfl

/-- A key with a value that ends the query. -/
theorem parseParams_lastKeyText {text : Bytes}
    (htext : ∀ c ∈ text, isValueEnd c = false) (hne : text ≠ []) :
    parseParams check (key ++ chr '=' :: text) m
      = (decode check key).bind fun key => (decode check text).bind fun value =>
          .ok (m.insert key (if value.isEmpty then none else some value)) := by
  have htake : text.takeWhile (fun c => !isValueEnd c) = text :=
    takeWhile_eq_self_iff.mpr fun c hc => by simpa using htext c hc
  rw [parseParams_key hkey (by decide)]
  refine congrArg (Except.bind (decode check key)) (funext fun key => ?_)
  rw [if_neg (by simp), if_neg (by simpa using hne)]
  dsimp only
  rw [htake, drop_length]

theorem parseParams_lastKeyValue :
    parseParams check (key ++ chr '=' :: encode value) m
      = (decode check key).bind fun key =>
          .ok (m.insert key (if value.isEmpty then none else some value)) := by
  by_cases hemp : value = []
  · subst hemp
    rw [encode_nil, parseParams_key hkey (by decide)]
    rfl
  · rw [parseParams_lastKeyText hkey (fun c hc => not_isValueEnd_of_not_isKeyEnd
      (not_isKeyEnd_of_mem_encode hc)) (encode_eq_nil_iff.not.mpr hemp), decode_encode]
    rfl

omit hkey

end

/-! ## Whole queries -/

variable (m : QueryMap)

/-- The parameters, set one after the other. -/
def insertAll (params : List (Bytes × Option Bytes)) : QueryMap :=
  params.foldl (fun m p => m.insert p.1 p.2) m

@[simp] theorem insertAll_nil : insertAll m [] = m := rfl

@[simp] theorem insertAll_cons (p : Bytes × Option Bytes)
    (params : List (Bytes × Option Bytes)) :
    insertAll m (p :: params) = insertAll (m.insert p.1 p.2) params := rfl

theorem insertAll_append (params params' : List (Bytes × Option Bytes)) :
    insertAll m (params ++ params') = insertAll (insertAll m params) params' :=
  foldl_append

theorem lookup_insertAll_of_notMem {k : Bytes} :
    ∀ {params : List (Bytes × Option Bytes)} (m : QueryMap), k ∉ params.map (·.1) →
      (insertAll m params).lookup k = m.lookup k
  | [], _, _ => rfl
  | p :: params, m, h => by
    obtain ⟨hne, hrest⟩ := not_or.mp (mem_cons.not.mp h)
    rw [insertAll_cons, lookup_insertAll_of_notMem _ hrest, UMap.lookup_insert, if_neg hne]

/-- Of parameters with different keys, each is found. -/
theorem lookup_insertAll_iff {k : Bytes} {v : Option Bytes} :
    ∀ {params : List (Bytes × Option Bytes)}, (params.map (·.1)).Nodup → ∀ {m : QueryMap},
      (∀ p ∈ params, m.lookup p.1 = none) →
      ((insertAll m params).lookup k = some v ↔ (k, v) ∈ params ∨ m.lookup k = some v)
  | [], _, _, _ => by simp
  | p :: params, hnd, m, hfresh => by
    obtain ⟨hp, hnd⟩ := nodup_cons.mp hnd
    have hrest : ∀ q ∈ params, (m.insert p.1 p.2).lookup q.1 = none := by
      intro q hq
      rw [UMap.lookup_insert, if_neg, hfresh q (mem_cons_of_mem _ hq)]
      exact fun heq => hp (mem_map.mpr ⟨q, hq, heq⟩)
    rw [insertAll_cons, lookup_insertAll_iff hnd hrest, UMap.lookup_insert, mem_cons]
    by_cases hk : k = p.1
    · subst hk
      have hnone := hfresh p mem_cons_self
      have hnot : (p.1, v) ∉ params := fun h => hp (mem_map_of_mem (f := (·.1)) h)
      simp only [hnot, if_true, hnone, false_or, or_false, reduceCtorEq, Option.some.injEq]
      exact ⟨fun h => Prod.ext rfl h.symm, fun h => (congrArg Prod.snd h).symm⟩
    · have hne : (k, v) ≠ p := fun h => hk (congrArg Prod.fst h)
      simp only [hk, hne, if_false, false_or]

section

variable (w : Bytes → Bytes)

/-- One `key[=value]`. -/
def writeParam (p : Bytes × Option Bytes) : Bytes :=
  w p.1 ++ match p.2 with
    | some value => chr '=' :: encode value
    | none => []

/-- The parameters, joined by '&'. -/
def writeQuery : List (Bytes × Option Bytes) → Bytes
  | [] => []
  | p :: params => writeParam w p ++ params.flatMap fun q => chr '&' :: writeParam w q

/-- What is read of the last parameter. -/
def readLast (p : Bytes × Option Bytes) : List (Bytes × Option Bytes) :=
  match p.2 with
  | some value => [(p.1, if value.isEmpty then none else some value)]
  | none => if (w p.1).isEmpty then [] else [(w p.1, none)]

theorem writeQuery_cons_cons (p q : Bytes × Option Bytes) (params : List (Bytes × Option Bytes)) :
    writeQuery w (p :: q :: params) = writeParam w p ++ chr '&' :: writeQuery w (q :: params) := by
  rw [writeQuery, writeQuery, flatMap_cons, cons_append]

variable {w} {check : UriCheck}

/-- A part that is not the last. -/
theorem parseParams_writeParam {p : Bytes × Option Bytes}
    (hkey : ∀ c ∈ w p.1, isKeyEnd c = false) (rest : Bytes) (m : QueryMap) :
    parseParams check (writeParam w p ++ chr '&' :: rest) m
      = (decode check (w p.1)).bind fun key => parseParams check rest (m.insert key p.2) := by
  obtain ⟨key, value⟩ := p
  cases value with
  | none =>
    rw [writeParam, append_nil]
    exact parseParams_bareKey hkey
  | some value =>
    rw [writeParam, append_assoc, cons_append]
    exact parseParams_keyValue hkey

/-- The last part. -/
theorem parseParams_writeLast {p : Bytes × Option Bytes} (hkey : ∀ c ∈ w p.1, isKeyEnd c = false)
    (hdecode : p.2.isSome = true → decode check (w p.1) = .ok p.1) (m : QueryMap) :
    parseParams check (writeParam w p) m = .ok (insertAll m (readLast w p)) := by
  obtain ⟨key, value⟩ := p
  cases value with
  | none =>
    rw [writeParam, append_nil, readLast]
    by_cases hemp : w key = []
    · rw [hemp]
      exact parseParams_nil check m
    · rw [if_neg (by simpa using hemp)]
      exact parseParams_lastKey hkey hemp
  | some value =>
    rw [writeParam, parseParams_lastKeyValue hkey, hdecode rfl]
    rfl

theorem parseParams_writeQuery {last : Bytes × Option Bytes} :
    ∀ {params : List (Bytes × Option Bytes)} {m : QueryMap},
      (∀ p ∈ params, (∀ c ∈ w p.1, isKeyEnd c = false) ∧ decode check (w p.1) = .ok p.1) →
      parseParams check (writeQuery w (params ++ [last])) m
        = parseParams check (writeParam w last) (insertAll m params)
  | [], m, _ => by rw [nil_append, writeQuery, flatMap_nil, append_nil, insertAll_nil]
  | p :: params, m, h => by
    have hp := h p mem_cons_self
    obtain ⟨q, rest, hrest⟩ : ∃ q rest, params ++ [last] = q :: rest := by
      cases params with
      | nil => exact ⟨last, [], rfl⟩
      | cons q params => exact ⟨q, params ++ [last], rfl⟩
    rw [cons_append, hrest, writeQuery_cons_cons, parseParams_writeParam hp.1, hp.2, ← hrest,
      insertAll_cons]
    exact parseParams_writeQuery fun q hq => h q (mem_cons_of_mem _ hq)

end

end OpenCmw
