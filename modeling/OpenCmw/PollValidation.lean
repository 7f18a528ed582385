import OpenCmw.RestSteps

/-!
# Which polls are rejected

`processLongPollRequest` checks the texts of a poll in three places before it
touches the subscription cache, and once more after, on an index that it has
moved up to the oldest message. `Acceptable` says what the texts have to be;
it is what the three checks before let through (`parsePoll_ok_iff`), so a poll
that is not acceptable is answered with code 400 and nothing else changes. The
check after is made on an entry with messages, so on one that is not new; it
answers, like every other branch, exactly once.
-/

namespace OpenCmw

open Or (inl inr)

/-! ## Decimal texts -/

/-- The text consists of digits only, and denotes `n`. -/
def Decimal (text : Bytes) (n : Nat) : Prop :=
  text ≠ [] ∧ (∀ c ∈ text, isDigit c = true) ∧ ofDec text = n

variable {text : Bytes}

theorem Decimal.ne_of_letter {other : Bytes} {n : Nat} (h : Decimal text n)
    (hletter : ∃ c ∈ other, isDigit c = false) : text ≠ other := by
  rintro rfl
  obtain ⟨c, hc, hnot⟩ := hletter
  rw [h.2.1 c hc] at hnot
  cases hnot

theorem fromChars_of_digits (hne : text ≠ []) (hdigits : ∀ c ∈ text, isDigit c = true) :
    fromChars text =
      if ofDec text < 2 ^ 64 then some (UInt64.ofNat (ofDec text), []) else none := by
  unfold fromChars
  rw [List.takeWhile_eq_self_iff.mpr hdigits, if_neg (by simpa using hne), List.drop_length]

/-- All of the text is read only if it consists of digits. -/
theorem digits_of_fromChars {n : UInt64} (h : fromChars text = some (n, [])) :
    text ≠ [] ∧ ∀ c ∈ text, isDigit c = true := by
  unfold fromChars at h
  dsimp only at h
  split_ifs at h with hemp hlt
  have hdrop : text.drop (text.takeWhile isDigit).length = [] :=
    congrArg Prod.snd (Option.some.inj h)
  have hall : text.takeWhile isDigit = text := by
    refine List.IsPrefix.eq_of_length_le (List.takeWhile_prefix _) ?_
    exact List.drop_eq_nil_iff.mp hdrop
  refine ⟨fun hnil => hemp (by rw [hnil]; rfl), List.takeWhile_eq_self_iff.mp hall⟩

namespace LongPolling

theorem parseUnsigned_eq_ok {value name : Bytes} {n : UInt64} :
    parseUnsigned value name = .ok n ↔ Decimal value n.toNat := by
  unfold parseUnsigned Decimal
  constructor
  · intro h
    split_ifs at h with hemp
    split at h
    · rename_i result hread
      obtain rfl := Except.ok.inj h
      obtain ⟨hne, hdigits⟩ := digits_of_fromChars hread
      rw [fromChars_of_digits hne hdigits] at hread
      split_ifs at hread with hlt
      have hres : UInt64.ofNat (ofDec value) = result :=
        congrArg Prod.fst (Option.some.inj hread)
      refine ⟨hne, hdigits, ?_⟩
      rw [← hres, UInt64.toNat_ofNat']
      omega
    · cases h
  · rintro ⟨hne, hdigits, hn⟩
    rw [if_neg (by simpa using hne), fromChars_of_digits hne hdigits, hn, if_pos n.toNat_lt,
      UInt64.ofNat_toNat]

end LongPolling

namespace Rest

open LongPolling

variable {StreamId : Type} [LinearOrder StreamId]

/-! ## Acceptable polls -/

/-- "Next", "Last" or a decimal number that fits. -/
def AcceptableIndex (index : Option Bytes) : Prop :=
  index = some (str "Next") ∨ index = some (str "Last") ∨
    ∃ text n, index = some text ∧ Decimal text n ∧ n < 2 ^ 64

/-- No batch, "AllAvailable" or a decimal number from 1 to 100. -/
def AcceptableBatch (batch : Option Bytes) : Prop :=
  ∀ text, batch = some text → text = kAllAvailable ∨ ∃ n, Decimal text n ∧ 1 ≤ n ∧ n ≤ 100

/-- The last index that a poll with a number and a count asks for fits. -/
def LastFits (request : Request) : Prop :=
  ∀ index i batch n, request.longPollIndex = some index → Decimal index i →
    request.longPollBatch = some batch → Decimal batch n → i + n - 1 ≤ 2 ^ 64 - 1

def Acceptable (request : Request) : Prop :=
  AcceptableIndex request.longPollIndex ∧ AcceptableBatch request.longPollBatch ∧
    LastFits request

/-- The code of a response. -/
def Response.code : Response → Nat
  | .rest response => response.code
  | .message code _ _ => code

variable {request : Request}

theorem parsePollIndex_none : parsePollIndex request = .ok none ↔
      request.longPollIndex = some (str "Next") ∨ request.longPollIndex = some (str "Last") := by
  unfold parsePollIndex
  by_cases hword : request.longPollIndex = some (str "Next") ∨
      request.longPollIndex = some (str "Last")
  · rw [if_neg (by tauto)]
    exact iff_of_true rfl hword
  · rw [if_pos (by tauto)]
    refine iff_of_false (fun h => ?_) hword
    obtain ⟨n, -, hn⟩ := map_eq_ok.mp h
    cases hn

theorem parsePollIndex_some {i : UInt64} : parsePollIndex request = .ok (some i) ↔
      ∃ text, request.longPollIndex = some text ∧ Decimal text i.toNat := by
  unfold parsePollIndex
  constructor
  · intro h
    split_ifs at h with hword
    · obtain ⟨n, hparse, hn⟩ := map_eq_ok.mp h
      cases hn
      have hdec := parseUnsigned_eq_ok.mp hparse
      cases hidx : request.longPollIndex with
      | none =>
        rw [hidx] at hdec
        exact absurd rfl hdec.1
      | some text =>
        rw [hidx] at hdec
        exact ⟨text, rfl, hdec⟩
    · cases Except.ok.inj h
  · rintro ⟨text, hidx, hdec⟩
    have hnext : text ≠ str "Next" := hdec.ne_of_letter ⟨chr 'N', by decide, by decide⟩
    have hlast : text ≠ str "Last" := hdec.ne_of_letter ⟨chr 'L', by decide, by decide⟩
    rw [hidx, if_pos (by simp [hnext, hlast]), Option.getD_some, parseUnsigned_eq_ok.mpr hdec]
    rfl

theorem parsePollIndex_ok_iff :
    (∃ index, parsePollIndex request = .ok index) ↔ AcceptableIndex request.longPollIndex := by
  constructor
  · rintro ⟨index | i, h⟩
    · rcases parsePollIndex_none.mp h with h | h
      · exact inl h
      · exact inr (inl h)
    · obtain ⟨text, htext, hdec⟩ := parsePollIndex_some.mp h
      exact inr (inr ⟨text, i.toNat, htext, hdec, i.toNat_lt⟩)
  · rintro (h | h | ⟨text, n, htext, hdec, hn⟩)
    · exact ⟨none, parsePollIndex_none.mpr (inl h)⟩
    · exact ⟨none, parsePollIndex_none.mpr (inr h)⟩
    · refine ⟨some (UInt64.ofNat n), parsePollIndex_some.mpr ⟨text, htext, ?_⟩⟩
      rwa [UInt64.toNat_ofNat_of_lt' hn]

/-- A batch with a count is what a decimal text in range is read as. -/
theorem parseLongPollingBatch_fixedCount {batch : LongPollingBatchRequest}
    (h : parseLongPollingBatch request = .ok batch) (n : Nat) :
    (batch.mode = .fixedCount ∧ batch.count.toNat = n) ↔
      ∃ text, request.longPollBatch = some text ∧ Decimal text n := by
  unfold parseLongPollingBatch at h
  cases hbatch : request.longPollBatch with
  | none =>
    rw [hbatch] at h
    cases h
    simp
  | some text =>
    rw [hbatch] at h
    dsimp only at h
    split_ifs at h with hall
    · cases h
      refine iff_of_false (by simp) ?_
      rintro ⟨text', htext, hdec⟩
      cases htext
      exact hdec.ne_of_letter ⟨chr 'A', by decide, by decide⟩ hall
    · split at h
      · cases h
      · rename_i parsed hparse
        split_ifs at h with hrange
        cases h
        have hdec := parseUnsigned_eq_ok.mp hparse
        constructor
        · rintro ⟨-, rfl⟩
          exact ⟨text, rfl, hdec⟩
        · rintro ⟨text', htext, hdec'⟩
          cases htext
          exact ⟨rfl, hdec.2.2.symm.trans hdec'.2.2⟩

theorem parseLongPollingBatch_ok_iff : (∃ batch, parseLongPollingBatch request = .ok batch) ↔
      AcceptableBatch request.longPollBatch := by
  unfold parseLongPollingBatch AcceptableBatch
  cases hbatch : request.longPollBatch with
  | none => simp
  | some text =>
    simp only [Option.some.injEq, forall_eq']
    by_cases hall : text = kAllAvailable
    · rw [if_pos hall]
      exact iff_of_true ⟨_, rfl⟩ (inl hall)
    · rw [if_neg hall, or_iff_right hall]
      cases hparse : parseUnsigned text kBatchParameter with
      | error e =>
        refine iff_of_false (by simp) ?_
        rintro ⟨n, hdec, -, hmax⟩
        have hfits : Decimal text (UInt64.ofNat n).toNat := by
          rwa [UInt64.toNat_ofNat_of_lt' (show n < 2 ^ 64 by omega)]
        rw [parseUnsigned_eq_ok.mpr hfits] at hparse
        cases hparse
      | ok parsed =>
        have hdec := parseUnsigned_eq_ok.mp hparse
        dsimp only
        split_ifs with hrange
        · exact iff_of_true ⟨_, rfl⟩ ⟨parsed.toNat, hdec, hrange⟩
        · refine iff_of_false (by simp) ?_
          rintro ⟨n, hdec', hn⟩
          obtain rfl := hdec.2.2.symm.trans hdec'.2.2
          exact hrange hn

theorem overflows_of_lastFits {i : UInt64} {batch : LongPollingBatchRequest}
    (hidx : parsePollIndex request = .ok (some i))
    (hbatch : parseLongPollingBatch request = .ok batch) :
    LastFits request ↔ ¬(batch.mode = .fixedCount ∧ Session.overflows i batch.count = true) := by
  obtain ⟨index, hi, hdec⟩ := parsePollIndex_some.mp hidx
  have hone := batch.inRange.1
  rw [overflows_iff hone]
  constructor
  · rintro hfits ⟨hmode, hover⟩
    obtain ⟨text, htext, hcnt⟩ :=
      (parseLongPollingBatch_fixedCount hbatch batch.count.toNat).mp ⟨hmode, rfl⟩
    have hlast := hfits index i.toNat text batch.count.toNat hi hdec htext hcnt
    omega
  · intro hover index' i' text n hidx' hi' htext hcnt
    obtain rfl := Option.some.inj (hi.symm.trans hidx')
    obtain rfl := hdec.2.2.symm.trans hi'.2.2
    obtain ⟨hmode, hn⟩ := (parseLongPollingBatch_fixedCount hbatch n).mpr ⟨text, htext, hcnt⟩
    rw [not_and] at hover
    have hlt := hover hmode
    omega

/-- The checks before the cache is touched let exactly the acceptable polls
through, and answer the others with code 400. -/
theorem parsePoll_cases (request : Request) :
    (¬Acceptable request ∧ ∃ response, parsePoll request = .error response ∧ response.code = 400) ∨
      (Acceptable request ∧ ∃ r, parsePoll request = .ok r) := by
  unfold parsePoll
  cases hidx : parsePollIndex request with
  | error e =>
    refine inl ⟨fun h => ?_, _, rfl, rfl⟩
    obtain ⟨index, hok⟩ := parsePollIndex_ok_iff.mpr h.1
    rw [hok] at hidx
    cases hidx
  | ok index =>
    have hacceptable := parsePollIndex_ok_iff.mp ⟨index, hidx⟩
    cases hbatch : parseLongPollingBatch request with
    | error e =>
      have hnot : ¬Acceptable request := by
        intro h
        obtain ⟨batch, hok⟩ := parseLongPollingBatch_ok_iff.mpr h.2.1
        rw [hok] at hbatch
        cases hbatch
      cases index with
      | none => exact inl ⟨hnot, _, rfl, rfl⟩
      | some i => exact inl ⟨hnot, _, rfl, rfl⟩
    | ok batch =>
      have hbatchOk := parseLongPollingBatch_ok_iff.mp ⟨batch, hbatch⟩
      cases index with
      | none =>
        refine inr ⟨⟨hacceptable, hbatchOk, ?_⟩, _, rfl⟩
        intro text i _ _ htext hdec
        rcases parsePollIndex_none.mp hidx with hword | hword
        · exact absurd (Option.some.inj (htext.symm.trans hword))
            (hdec.ne_of_letter ⟨chr 'N', by decide, by decide⟩)
        · exact absurd (Option.some.inj (htext.symm.trans hword))
            (hdec.ne_of_letter ⟨chr 'L', by decide, by decide⟩)
      | some i =>
        have hfits := overflows_of_lastFits hidx hbatch
        dsimp only
        split_ifs with hover
        · exact inl ⟨fun h => hfits.mp h.2.2 hover, _, rfl, rfl⟩
        · exact inr ⟨⟨hacceptable, hbatchOk, hfits.mpr hover⟩, _, rfl⟩

/-! ## What a poll does -/

theorem requireEntry_length (platform : Platform) {w : Work StreamId}
    (hcache : ∀ zmqTopic entry, w.cache.find? zmqTopic = some entry →
      entry.messages.length < 2 ^ 64) (topic : Topic) :
    (w.requireEntry platform topic).1.messages.length < 2 ^ 64 := by
  unfold Work.requireEntry
  split
  · rename_i entry hent
    exact hcache _ _ hent
  · exact Nat.two_pow_pos 64

/-- A poll that is not acceptable is answered with code 400 and changes
nothing; one that is acceptable is either answered once or registered once.
The cache may be in any state; that an entry has fewer than `2 ^ 64` messages
is the range of `size_t`. -/
theorem processLongPollRequest_exact (platform : Platform) (w : Work StreamId)
    (hcache : ∀ zmqTopic entry, w.cache.find? zmqTopic = some entry →
      entry.messages.length < 2 ^ 64) (streamId : StreamId) (request : Request) (topic : Topic) :
    ∃ w', w.processLongPollRequest platform streamId request topic = some w' ∧
      (¬Acceptable request → (∃ response, response.code = 400 ∧ w'.session.library.submitted =
            w.session.library.submitted ++ [(streamId, response)]) ∧
          w'.messages = w.messages ∧ w'.cache = w.cache ∧
          w'.session.pendingPolls = w.session.pendingPolls) ∧
      (Acceptable request → (∃ response, w'.session.library.submitted =
            w.session.library.submitted ++ [(streamId, response)]) ∧
          w'.session.pendingPolls = w.session.pendingPolls ∨
        w'.session.library.submitted = w.session.library.submitted ∧
          ∃ poll, w'.session.pendingPolls = w.session.pendingPolls ++ [poll]) := by
  obtain ⟨w', hw'⟩ := Work.processLongPollRequest_isSome platform w streamId request topic
    (requireEntry_length platform hcache topic)
  refine ⟨w', hw', ?_⟩
  rcases parsePoll_cases request with ⟨hnot, response, hparse, hcode⟩ | ⟨hacceptable, r, hparse⟩
  · refine ⟨fun _ => ?_, fun h => absurd h hnot⟩
    rcases Work.processLongPollRequest_eq_some hw' with
      ⟨response', hparse', rfl⟩ | ⟨_, _, hparse', -⟩ | ⟨_, _, _, hparse', -⟩
    · obtain rfl := Except.error.inj (hparse.symm.trans hparse')
      exact ⟨⟨response, hcode, rfl⟩, rfl, rfl, rfl⟩
    · rw [hparse] at hparse'
      cases hparse'
    · rw [hparse] at hparse'
      cases hparse'
  · refine ⟨fun h => absurd hacceptable h, fun _ => ?_⟩
    rcases Work.processLongPollRequest_eq_some hw' with
      ⟨_, hparse', -⟩ | ⟨_, location, -, rfl⟩ | ⟨_, _, session, -, hanswer, rfl⟩
    · rw [hparse] at hparse'
      cases hparse'
    · exact Or.inl ⟨⟨_, rfl⟩, rfl⟩
    · rcases Session.answerPoll_eq_some hanswer with ⟨response, rfl⟩ | ⟨poll, -, rfl⟩
      · exact Or.inl ⟨⟨response, rfl⟩, rfl⟩
      · exact Or.inr ⟨rfl, poll, rfl⟩

/-- A poll at the largest index for two messages, on an empty cache. -/
theorem processLongPollRequest_exact_overflow :
    let w : Work Nat := ⟨∅, 0, { library := { accepts := fun _ => true } }, []⟩
    let request : Request :=
      { longPollIndex := some (str "18446744073709551615"), longPollBatch := some (str "2") }
    ∃ w', w.processLongPollRequest .inOrder 1 request ⟨str "/batch", ∅, by decide⟩ = some w' ∧
      (∃ response, response.code = 400 ∧ w'.session.library.submitted = [(1, response)]) ∧
        w'.messages = [] ∧ w'.cache = ∅ ∧ w'.session.pendingPolls = [] := by
  intro w request
  have hcache : ∀ zmqTopic entry, w.cache.find? zmqTopic = some entry →
      entry.messages.length < 2 ^ 64 := fun _ _ hfind => nomatch hfind
  have hnot : ¬Acceptable request := by
    rintro ⟨-, -, hfits⟩
    have hlast := hfits (str "18446744073709551615") (2 ^ 64 - 1) (str "2") 2 rfl
      ⟨by decide, by decide +kernel, by decide +kernel⟩ rfl
      ⟨by decide, by decide +kernel, by decide +kernel⟩
    omega
  obtain ⟨w', hw', hrejected, -⟩ := processLongPollRequest_exact .inOrder w hcache 1 request
    ⟨str "/batch", ∅, by decide⟩
  exact ⟨w', hw', hrejected hnot⟩

end Rest

end OpenCmw
