import OpenCmw.BrokerSteps

/-!
# Workers and the services they wait at

The waiting lists of the services hold addresses of workers. `Sound` is what
every defined step keeps: workers are entered under their own id, no two
have the same address, and every waiting address is that of a worker that
still exists and belongs to the service. A step that would leave a dangling
address behind dereferences it before it ends, so it is not defined.

What `Sound` does not say is that a worker waits only once: `purgeWorkers`
is defined only if an expired worker does (`purgeWaiting_defined`).

The operations are described one by one: `purgeWorkers_eq_ok` (which workers
and which addresses stay), `Dispatched` (what the loop of `dispatch` takes),
and from them what `dispatch`, `handOver` and `workerWaiting` keep.
-/

namespace OpenCmw.Pool

open List Option UMap AList

/-! ## Addresses -/

/-- Workers are entered under their id, and no two have the same address. -/
structure Keyed (workers : UMap Bytes Worker) : Prop where
  id_eq : ∀ {id w}, workers.lookup id = some w → w.id = id
  addr_inj : ∀ {id id' w w'}, workers.lookup id = some w → workers.lookup id' = some w' →
    w.addr = w'.addr → w = w'

variable {workers : UMap Bytes Worker}

variable {addr : Nat} {w : Worker} {name : Bytes} {s : Service} {out : List Output}
  {names : List Bytes} {cfg : Config}

variable (hk : Keyed workers)
include hk

theorem workerAt_eq_some :
    workerAt workers addr = some w ↔ workers.lookup w.id = some w ∧ w.addr = addr := by
  have hfound : ∀ {e : Sigma fun _ : Bytes => Worker},
      (workers.entries.find? fun e => e.2.addr = addr) = some e →
        workers.lookup e.2.id = some e.2 ∧ e.2.addr = addr := by
    intro e he
    have hlook : workers.lookup e.1 = some e.2 :=
      mem_entries_iff.mp (mem_of_find?_eq_some he)
    refine ⟨?_, by simpa using find?_some he⟩
    rw [hk.id_eq hlook]
    exact hlook
  constructor
  · intro h
    obtain ⟨e, he, rfl⟩ := map_eq_some_iff.mp h
    exact hfound he
  · rintro ⟨hlook, rfl⟩
    have hmem : ⟨w.id, w⟩ ∈ workers.entries := mem_entries_iff.mpr hlook
    have hsome : (workers.entries.find? fun e => e.2.addr = w.addr).isSome = true :=
      find?_isSome.mpr ⟨⟨w.id, w⟩, hmem, by simp⟩
    obtain ⟨e, he⟩ := isSome_iff_exists.mp hsome
    obtain ⟨hlook', haddr⟩ := hfound he
    rw [workerAt, he, hk.addr_inj hlook hlook' haddr.symm]
    rfl

theorem deref_eq_ok :
    deref workers addr = .ok w ↔ workers.lookup w.id = some w ∧ w.addr = addr := by
  rw [← workerAt_eq_some hk, deref]
  cases workerAt workers addr <;> simp

theorem Keyed.of_subset {workers' : UMap Bytes Worker}
    (hsub : ∀ {id w}, workers'.lookup id = some w → workers.lookup id = some w) : Keyed workers' :=
  ⟨fun h => hk.id_eq (hsub h), fun h h' => hk.addr_inj (hsub h) (hsub h')⟩

omit hk

theorem lookup_of_lookup_erase {id id' : Bytes}
    (h : (workers.erase id).lookup id' = some w) : workers.lookup id' = some w := by
  rw [UMap.lookup_erase] at h
  split_ifs at h
  exact h

include hk

theorem Keyed.erase (id : Bytes) : Keyed (workers.erase id) :=
  hk.of_subset lookup_of_lookup_erase

/-- Erasing a worker does not change what is at other addresses. -/
theorem workerAt_erase (hw : workers.lookup w.id = some w) (hne : addr ≠ w.addr) :
    workerAt (workers.erase w.id) addr = workerAt workers addr := by
  ext w'
  rw [workerAt_eq_some (hk.erase w.id), workerAt_eq_some hk, UMap.lookup_erase]
  constructor
  · rintro ⟨hlook, haddr⟩
    split_ifs at hlook
    exact ⟨hlook, haddr⟩
  · rintro ⟨hlook, haddr⟩
    rw [if_neg]
    · exact ⟨hlook, haddr⟩
    · intro hid
      rw [hid, hw] at hlook
      cases hlook
      exact hne haddr.symm

omit hk

/-! ## Purging -/

/-- The worker at that address exists and has not expired. -/
def isFresh (workers : UMap Bytes Worker) (now : Int) (addr : Nat) : Bool :=
  (workerAt workers addr).any fun w => now ≤ w.expiry

theorem isFresh_iff (hk : Keyed workers) {now : Int} : isFresh workers now addr = true ↔
      ∃ w, workers.lookup w.id = some w ∧ w.addr = addr ∧ now ≤ w.expiry := by
  simp only [isFresh, Option.any_eq_true, workerAt_eq_some hk, decide_eq_true_eq, and_assoc]

/-- A purge keeps the addresses of the workers that have not expired, and
erases the others. -/
theorem purgeWaiting_eq_ok {now : Int} : ∀ {waiting kept : List Nat}
    {workers workers' : UMap Bytes Worker}, Keyed workers →
    purgeWaiting now waiting workers = .ok (kept, workers') →
    kept = waiting.filter (isFresh workers now) ∧
      ∀ {id w}, workers'.lookup id = some w ↔
        workers.lookup id = some w ∧ (w.addr ∈ waiting → now ≤ w.expiry)
  | [], kept, workers, workers', hk, h => by
    cases h
    simp
  | addr :: rest, kept, workers, workers', hk, h => by
    obtain ⟨w, hw, h⟩ := bind_eq_ok.mp h
    obtain ⟨hlook, rfl⟩ := (deref_eq_ok hk).mp hw
    have hsame : ∀ {id w'}, workers.lookup id = some w' → w'.addr = w.addr → w' = w :=
      fun hid haddr => hk.addr_inj hid hlook haddr
    by_cases hexpired : w.expiry < now
    · rw [if_pos hexpired] at h
      obtain ⟨hkept, hwkrs⟩ := purgeWaiting_eq_ok (hk.erase w.id) h
      have hstale : isFresh workers now w.addr = false := by
        rw [Bool.eq_false_iff, Ne, isFresh_iff hk]
        rintro ⟨w', hw', haddr, hfresh⟩
        obtain rfl := hsame hw' haddr
        omega
      constructor
      · rw [filter_cons_of_neg (by simp [hstale]), hkept]
        refine filter_congr fun addr _ => ?_
        by_cases haddr : addr = w.addr
        · rw [haddr, hstale, Bool.eq_false_iff, Ne, isFresh_iff (hk.erase w.id)]
          rintro ⟨w', hw', haddr', -⟩
          obtain rfl := hsame (lookup_of_lookup_erase hw') haddr'
          rw [UMap.lookup_erase, if_pos rfl] at hw'
          cases hw'
        · rw [isFresh, isFresh, workerAt_erase hk hlook haddr]
      · intro id w'
        rw [hwkrs, UMap.lookup_erase, mem_cons]
        split_ifs with hid
        · subst hid
          refine ⟨fun hnone => ?_, ?_⟩
          · cases hnone.1
          rintro ⟨hw', hfresh⟩
          rw [hlook] at hw'
          cases hw'
          exact absurd hexpired (not_lt.mpr (hfresh (Or.inl rfl)))
        · refine and_congr_right fun hw' => ?_
          have hne : w'.addr ≠ w.addr := by
            intro haddr
            obtain rfl := hsame hw' haddr
            exact hid (hk.id_eq hw').symm
          simp [hne]
    · rw [if_neg hexpired] at h
      obtain ⟨⟨_, _⟩, hrest, heq⟩ := map_eq_ok.mp h
      cases heq
      obtain ⟨rfl, hwkrs⟩ := purgeWaiting_eq_ok hk hrest
      have hfresh : isFresh workers now w.addr = true :=
        (isFresh_iff hk).mpr ⟨w, hlook, rfl, not_lt.mp hexpired⟩
      refine ⟨by rw [filter_cons_of_pos hfresh], fun {id w'} => ?_⟩
      rw [hwkrs, mem_cons]
      refine and_congr_right fun hw' => ⟨fun hrest hmem => ?_, fun hall hmem => hall (Or.inr hmem)⟩
      rcases hmem with haddr | hmem
      · obtain rfl := hsame hw' haddr
        exact not_lt.mp hexpired
      · exact hrest hmem

/-- A purge of workers that exist and wait once is defined. -/
theorem purgeWaiting_defined {now : Int} : ∀ {waiting : List Nat} {workers : UMap Bytes Worker},
    Keyed workers → waiting.Nodup →
    (∀ addr ∈ waiting, ∃ w, workers.lookup w.id = some w ∧ w.addr = addr) →
    ∃ r, purgeWaiting now waiting workers = .ok r
  | [], workers, _, _, _ => ⟨([], workers), rfl⟩
  | addr :: rest, workers, hk, hnd, hvalid => by
    obtain ⟨haddr, hnd'⟩ := nodup_cons.mp hnd
    obtain ⟨w, hlook, rfl⟩ := hvalid addr mem_cons_self
    have hvalid' : ∀ addr ∈ rest, ∃ w, workers.lookup w.id = some w ∧ w.addr = addr :=
      fun addr hmem => hvalid addr (mem_cons_of_mem _ hmem)
    unfold purgeWaiting
    rw [(deref_eq_ok hk).mpr ⟨hlook, rfl⟩]
    by_cases hexpired : w.expiry < now
    · have hrest : ∀ addr ∈ rest, ∃ w', (workers.erase w.id).lookup w'.id = some w' ∧
          w'.addr = addr := by
        intro addr hmem
        obtain ⟨w', hw', rfl⟩ := hvalid' addr hmem
        refine ⟨w', ?_, rfl⟩
        rw [UMap.lookup_erase, if_neg]
        · exact hw'
        · intro hid
          rw [hid, hlook] at hw'
          cases hw'
          exact haddr hmem
      obtain ⟨r, hr⟩ : ∃ r, purgeWaiting now rest (workers.erase w.id) = .ok r :=
        purgeWaiting_defined (hk.erase w.id) hnd' hrest
      exact ⟨r, by simp only [Except.bind, if_pos hexpired, hr]⟩
    · obtain ⟨r, hr⟩ : ∃ r, purgeWaiting now rest workers = .ok r :=
        purgeWaiting_defined hk hnd' hvalid'
      exact ⟨(w.addr :: r.1, r.2), by simp only [Except.bind, if_neg hexpired, hr]; rfl⟩

/-! ## Updates -/

theorem lookup_setService (p : Pool) (name name' : Bytes) (s : Service) :
    (p.setService name s).services.lookup name' =
      if name' = name then some s else p.services.lookup name' :=
  lookup_insert p.services name name' s

theorem lookup_setWorker (p : Pool) (w : Worker) (id : Bytes) :
    (p.setWorker w).workers.lookup id = if id = w.id then some w else p.workers.lookup id :=
  lookup_insert p.workers w.id id w

/-! ## What every defined step keeps -/

/-- Every waiting address is that of a worker of the service. -/
structure Sound (roles : List Bytes) (p : Pool) : Prop where
  keyed : Keyed p.workers
  addr_lt : ∀ {id w}, p.workers.lookup id = some w → w.addr < p.nextAddr
  waiting : ∀ {name s addr}, p.services.lookup name = some s → addr ∈ s.waiting →
    ∃ w, p.workers.lookup w.id = some w ∧ w.addr = addr ∧ w.serviceName = name
  queue : ∀ {name s}, p.services.lookup name = some s → ∃ queued, s.requests.Represents roles queued

variable {roles : List Bytes} {p p' : Pool} {now : Int}

variable (hs : Sound roles p)
include hs

/-- A worker waits at its own service only. -/
theorem Sound.serviceName_eq {id : Bytes}
    (hw : p.workers.lookup id = some w) (hsvc : p.services.lookup name = some s)
    (hmem : w.addr ∈ s.waiting) : w.serviceName = name := by
  obtain ⟨_, hw', haddr, hname⟩ := hs.waiting hsvc hmem
  rw [hs.keyed.addr_inj hw hw' haddr.symm]
  exact hname

/-- Workers may leave or get another expiry, as long as what waits is still
there. -/
theorem Sound.mono (hwkrs : ∀ {id w'}, p'.workers.lookup id = some w' →
      ∃ w, p.workers.lookup id = some w ∧ w'.id = w.id ∧ w'.addr = w.addr)
    (hnext : p.nextAddr ≤ p'.nextAddr)
    (hwaiting : ∀ {name s addr}, p'.services.lookup name = some s → addr ∈ s.waiting →
      ∃ w, p'.workers.lookup w.id = some w ∧ w.addr = addr ∧ w.serviceName = name)
    (hqueue : ∀ {name s}, p'.services.lookup name = some s →
      ∃ queued, s.requests.Represents roles queued) : Sound roles p' := by
  refine ⟨⟨fun {id w'} h => ?_, fun {id id' w₁ w₂} h₁ h₂ haddr => ?_⟩, fun {id w'} h => ?_,
    hwaiting, hqueue⟩
  · obtain ⟨w, hw, hid, -⟩ := hwkrs h
    rw [hid]
    exact hs.keyed.id_eq hw
  · obtain ⟨v₁, hv₁, -, haddr₁⟩ := hwkrs h₁
    obtain ⟨v₂, hv₂, -, haddr₂⟩ := hwkrs h₂
    have hv : v₁ = v₂ := hs.keyed.addr_inj hv₁ hv₂ (by rw [← haddr₁, ← haddr₂, haddr])
    have hid : id = id' := by rw [← hs.keyed.id_eq hv₁, ← hs.keyed.id_eq hv₂, hv]
    rw [hid, h₂] at h₁
    exact (some.inj h₁).symm
  · obtain ⟨w, hw, -, haddr⟩ := hwkrs h
    rw [haddr]
    exact lt_of_lt_of_le (hs.addr_lt hw) hnext

theorem Sound.setService (hwaiting : ∀ addr ∈ s.waiting,
      ∃ w, p.workers.lookup w.id = some w ∧ w.addr = addr ∧ w.serviceName = name)
    (hqueue : ∃ queued, s.requests.Represents roles queued) :
    Sound roles (p.setService name s) := by
  refine hs.mono (fun {id w} h => ⟨w, h, rfl, rfl⟩) le_rfl ?_ ?_
  · intro name' s' addr h hmem
    rw [lookup_setService] at h
    split_ifs at h with hname
    · cases h
      rw [hname]
      exact hwaiting addr hmem
    · exact hs.waiting h hmem
  · intro name' s' h
    rw [lookup_setService] at h
    split_ifs at h with hname
    · cases h
      exact hqueue
    · exact hs.queue h

theorem Sound.renew (hw : p.workers.lookup w.id = some w)
    (cfg : Config) (now : Int) : Sound roles (p.setWorker (w.renew cfg now)) := by
  refine hs.mono (fun {id w'} h => ?_) le_rfl (fun {name s addr} hsvc hmem => ?_) hs.queue
  · rw [lookup_setWorker] at h
    split_ifs at h with hid
    · cases h
      exact ⟨w, hid ▸ hw, rfl, rfl⟩
    · exact ⟨w', h, rfl, rfl⟩
  · obtain ⟨w', hw', haddr, hname⟩ := hs.waiting hsvc hmem
    by_cases hid : w'.id = w.id
    · rw [hid, hw] at hw'
      cases hw'
      exact ⟨w.renew cfg now, by rw [lookup_setWorker]; exact if_pos rfl, haddr, hname⟩
    · exact ⟨w', by rw [lookup_setWorker]; exact (if_neg hid).trans hw', haddr, hname⟩

omit hs

/-! ### Purging all services -/

/-- The service without the addresses of workers that have expired. -/
def purged (workers : UMap Bytes Worker) (now : Int) (s : Service) : Service :=
  { s with waiting := s.waiting.filter (isFresh workers now) }

/-- The services with these names are purged. -/
structure Purged (now : Int) (names : List Bytes) (p p' : Pool) : Prop where
  nextAddr_eq : p'.nextAddr = p.nextAddr
  workers : ∀ {id w}, p'.workers.lookup id = some w ↔ p.workers.lookup id = some w ∧
    ∀ name ∈ names, ∀ s, p.services.lookup name = some s → w.addr ∈ s.waiting → now ≤ w.expiry
  services : ∀ name, p'.services.lookup name =
    if name ∈ names then (p.services.lookup name).map (purged p.workers now)
    else p.services.lookup name

theorem isFresh_eq (hk : Keyed workers) (hw : workers.lookup w.id = some w) :
    isFresh workers now w.addr = decide (now ≤ w.expiry) := by
  rw [isFresh, (workerAt_eq_some hk).mpr ⟨hw, rfl⟩, any_some]

include hs

theorem Purged.of_service
    (h : purgeService now name p = .ok (p', out)) : Purged now [name] p p' := by
  unfold purgeService at h
  cases hsvc : p.services.lookup name with
  | none =>
    rw [hsvc] at h
    cases h
    refine ⟨rfl, fun {id w} => by simp [hsvc], fun name' => ?_⟩
    by_cases hname : name' = name
    · rw [hname, hsvc, map_none, ite_self]
    · rw [if_neg (by simpa using hname)]
  | some s =>
    rw [hsvc] at h
    obtain ⟨⟨_, _⟩, hpurge, heq⟩ := map_eq_ok.mp h
    cases heq
    obtain ⟨rfl, hwkrs⟩ := purgeWaiting_eq_ok hs.keyed hpurge
    refine ⟨rfl, fun {id w} => ?_, fun name' => ?_⟩
    · exact hwkrs.trans (by simp [hsvc])
    · rw [lookup_setService]
      by_cases hname : name' = name
      · rw [if_pos hname, if_pos (mem_singleton.mpr hname), hname, hsvc]
        rfl
      · rw [if_neg hname, if_neg (fun hmem => hname (mem_singleton.mp hmem))]

/-- A worker of another service is not touched. -/
theorem Purged.keeps (h : Purged now names p p') (hname : name ∉ names) (hsvc : p.services.lookup name = some s) (hw : p.workers.lookup w.id = some w) (hmem : w.addr ∈ s.waiting) :
    p'.workers.lookup w.id = some w := by
  refine h.workers.mpr ⟨hw, fun name' hname' s' hsvc' hmem' => ?_⟩
  have heq := hs.serviceName_eq hw hsvc hmem
  rw [hs.serviceName_eq hw hsvc' hmem'] at heq
  exact absurd (heq ▸ hname') hname

theorem Purged.sound (h : Purged now names p p') : Sound roles p' := by
  refine hs.mono (fun {id w} hw => ⟨w, (h.workers.mp hw).1, rfl, rfl⟩) h.nextAddr_eq.ge ?_ ?_
  · intro name s' addr hsvc' hmem
    rw [h.services] at hsvc'
    split_ifs at hsvc' with hname
    · obtain ⟨s, hsvc, rfl⟩ := map_eq_some_iff.mp hsvc'
      obtain ⟨hmem, hfresh⟩ := mem_filter.mp hmem
      obtain ⟨w, hw, rfl, hwname⟩ := hs.waiting hsvc hmem
      rw [isFresh_eq hs.keyed hw, decide_eq_true_eq] at hfresh
      exact ⟨w, h.workers.mpr ⟨hw, fun _ _ _ _ _ => hfresh⟩, rfl, hwname⟩
    · obtain ⟨w, hw, rfl, hwname⟩ := hs.waiting hsvc' hmem
      exact ⟨w, h.keeps hs hname hsvc' hw hmem, rfl, hwname⟩
  · intro name s' hsvc'
    rw [h.services] at hsvc'
    split_ifs at hsvc' with hname
    · obtain ⟨s, hsvc, rfl⟩ := map_eq_some_iff.mp hsvc'
      exact hs.queue (s := s) hsvc
    · exact hs.queue hsvc'

theorem Purged.cons {p₁ : Pool}
    (hname : name ∉ names) (h : Purged now [name] p p₁) (hrest : Purged now names p₁ p') :
    Purged now (name :: names) p p' := by
  have hother : ∀ {name'}, name' ≠ name → p₁.services.lookup name' = p.services.lookup name' := by
    intro name' hne
    rw [h.services, if_neg (fun hmem => hne (mem_singleton.mp hmem))]
  have hne : ∀ {name'}, name' ∈ names → name' ≠ name := fun hmem heq => hname (heq ▸ hmem)
  refine ⟨hrest.nextAddr_eq.trans h.nextAddr_eq, fun {id w} => ?_, fun name' => ?_⟩
  · rw [hrest.workers, h.workers, and_assoc, forall_mem_singleton, forall_mem_cons]
    refine and_congr_right fun _ => and_congr_right fun _ => forall₂_congr fun name' hmem => ?_
    rw [hother (hne hmem)]
  · rw [hrest.services]
    by_cases hmem : name' ∈ names
    · rw [if_pos hmem, if_pos (mem_cons_of_mem _ hmem), hother (hne hmem)]
      refine map_congr fun s hsvc => ?_
      have hfresh : ∀ addr ∈ s.waiting, isFresh p₁.workers now addr = isFresh p.workers now addr := by
        intro addr haddr
        obtain ⟨w, hw, rfl, -⟩ := hs.waiting hsvc haddr
        have hw₁ := h.keeps hs (fun hmem' => hne hmem (mem_singleton.mp hmem')) hsvc hw haddr
        rw [isFresh_eq hs.keyed hw, isFresh_eq (h.sound hs).keyed hw₁]
      rw [purged, purged, filter_congr hfresh]
    · rw [if_neg hmem, h.services]
      simp [hmem]

theorem purgeWorkers_eq_ok
    (h : purgeWorkers now p = .ok (p', out)) : Purged now p.services.keys p p' := by
  have hloop : ∀ {names : List Bytes} {p : Pool} {out : List Output}, Sound roles p →
      names.Nodup → forEach (purgeService now) names p = .ok (p', out) → Purged now names p p' := by
    intro names
    induction names with
    | nil =>
      intro p out _ _ h
      cases h
      exact ⟨rfl, by simp, by simp⟩
    | cons name names ih =>
      intro p out hs hnd h
      obtain ⟨hname, hnd⟩ := nodup_cons.mp hnd
      obtain ⟨_, _, _, hsvc, hrest, -⟩ := forEach_cons_eq_ok.mp h
      have hpurged := Purged.of_service hs hsvc
      exact hpurged.cons hs hname (ih (hpurged.sound hs) hnd hrest)
  exact hloop hs p.services.keys_nodup h

omit hs

/-- Purging all services leaves nothing but purged services. -/
theorem Purged.lookup_services (h : Purged now p.services.keys p p') (name : Bytes) :
    p'.services.lookup name = (p.services.lookup name).map (purged p.workers now) := by
  rw [h.services]
  split_ifs with hname
  · rfl
  · rw [lookup_eq_none.mpr hname, map_none]

/-! ### Dispatching -/

/-- The rounds of the loop of `dispatch`. -/
inductive Dispatched (name : Bytes) (workers : UMap Bytes Worker) :
    List Nat → RequestQueue → List Nat → RequestQueue → List Output → Prop
  | done {waiting q} (h : waiting = [] ∨ q.requestCount = 0) :
      Dispatched name workers waiting q waiting q []
  | take {addr rest q message q₁ worker waiting' q' out}
      (hpos : 0 < q.requestCount) (htake : q.takeNextMessage = some (message, q₁))
      (hworker : deref workers addr = .ok worker)
      (hrest : Dispatched name workers rest q₁ waiting' q' out) :
      Dispatched name workers (addr :: rest) q waiting' q'
        (.request name worker.socket (toWorker message worker) :: out)

theorem dispatchLoop_eq_ok :
    ∀ {waiting : List Nat} {q : RequestQueue} {r : List Nat × RequestQueue × List Output},
      dispatchLoop name workers waiting q = .ok r →
      Dispatched name workers waiting q r.1 r.2.1 r.2.2
  | [], q, r, h => by
    cases h
    exact .done (Or.inl rfl)
  | addr :: rest, q, r, h => by
    unfold dispatchLoop at h
    split_ifs at h with hpos
    · split at h
      · cases h
      · next message q₁ htake =>
        obtain ⟨_, hwkr, h⟩ := bind_eq_ok.mp h
        obtain ⟨d, hd, rfl⟩ := map_eq_ok.mp h
        exact .take hpos htake hwkr (dispatchLoop_eq_ok hd)
    · cases h
      exact .done (Or.inr (Nat.eq_zero_of_not_pos hpos))

section
variable {name : Bytes} {waiting waiting' : List Nat} {q q' : RequestQueue} {out : List Output}

variable (h : Dispatched name workers waiting q waiting' q' out)
include h

/-- Workers are taken from the front. -/
theorem Dispatched.suffix : waiting' <:+ waiting := by
  induction h with
  | done => exact suffix_refl _
  | take _ _ _ _ ih => exact ih.trans (suffix_cons _ _)

/-- The loop ends for want of workers or for want of requests. -/
theorem Dispatched.idle : waiting' = [] ∨ q'.requestCount = 0 := by
  induction h with
  | done h => exact h
  | take _ _ _ _ ih => exact ih

theorem Dispatched.queue :
    (∃ queued, q.Represents roles queued) → ∃ queued, q'.Represents roles queued := by
  induction h with
  | done => exact id
  | take _ htake _ _ ih =>
    rintro ⟨queued, hq⟩
    obtain ⟨rest, -, hrest⟩ := hq.take_of_eq htake
    exact ih ⟨rest, hrest⟩

omit h

end

include hs

theorem dispatch_eq_ok (h : dispatch now p name = .ok (p', out)) :
    ∃ p₁ s waiting' q', Purged now p.services.keys p p₁ ∧ p.services.lookup name = some s ∧
      Dispatched name p₁.workers (s.waiting.filter (isFresh p.workers now)) s.requests
        waiting' q' out ∧
      p' = p₁.setService name { s with waiting := waiting', requests := q' } := by
  obtain ⟨⟨p₁, _⟩, hpurge, h⟩ := bind_eq_ok.mp h
  have hpurged := purgeWorkers_eq_ok hs hpurge
  split at h
  · cases h
  · next s₁ hsvc₁ =>
    rw [hpurged.lookup_services] at hsvc₁
    obtain ⟨s, hsvc, rfl⟩ := map_eq_some_iff.mp hsvc₁
    obtain ⟨d, hd, heq⟩ := map_eq_ok.mp h
    cases heq
    exact ⟨p₁, s, d.1, d.2.1, hpurged, hsvc, dispatchLoop_eq_ok hd, rfl⟩

theorem dispatch_sound (h : dispatch now p name = .ok (p', out)) : Sound roles p' := by
  obtain ⟨p₁, s, _, _, hpurged, hsvc, hd, rfl⟩ := dispatch_eq_ok hs h
  have hs₁ := hpurged.sound hs
  have hsvc₁ : p₁.services.lookup name = some (purged p.workers now s) := by
    rw [hpurged.lookup_services, hsvc, map_some]
  exact hs₁.setService (fun addr hmem => hs₁.waiting hsvc₁ (hd.suffix.subset hmem))
    (hd.queue (hs.queue hsvc))

omit hs

/-! ### Workers and requests together -/

/-- No worker waits while there are requests. -/
def Idle (p : Pool) : Prop :=
  ∀ ⦃name s⦄, p.services.lookup name = some s → s.waiting = [] ∨ s.requests.requestCount = 0

theorem Purged.idle (h : Purged now p.services.keys p p')
    (hidle : ∀ {s}, p.services.lookup name = some s →
      s.waiting = [] ∨ s.requests.requestCount = 0) {s' : Service}
    (hsvc' : p'.services.lookup name = some s') :
    s'.waiting = [] ∨ s'.requests.requestCount = 0 := by
  rw [h.lookup_services] at hsvc'
  obtain ⟨s, hsvc, rfl⟩ := map_eq_some_iff.mp hsvc'
  rcases hidle hsvc with hnil | hcnt
  · exact Or.inl (by rw [purged, hnil, filter_nil])
  · exact Or.inr hcnt

/-- `dispatch` brings workers and requests of its service together; the other
services have to be so before. -/
theorem dispatch_idle (hs : Sound roles p)
    (hidle : ∀ {name' s}, name' ≠ name → p.services.lookup name' = some s →
      s.waiting = [] ∨ s.requests.requestCount = 0)
    (h : dispatch now p name = .ok (p', out)) : Idle p' := by
  obtain ⟨_, s, _, _, hpurged, -, hd, rfl⟩ := dispatch_eq_ok hs h
  intro name' s' hsvc'
  rw [lookup_setService] at hsvc'
  split_ifs at hsvc' with hname
  · cases hsvc'
    exact hd.idle
  · exact hpurged.idle (hidle hname) hsvc'

/-! ### The other operations -/

theorem handOver_eq_ok {message : BrokerMessage} (h : handOver now p name message = .ok (p', out)) :
    ∃ s, p.services.lookup name = some s ∧
      dispatch now (p.setService name { s with requests := s.requests.putMessage message }) name =
        .ok (p', out) := by
  unfold handOver at h
  split at h
  · cases h
  · next s hsvc => exact ⟨s, hsvc, h⟩

theorem Sound.put (hs : Sound roles p)
    (hsvc : p.services.lookup name = some s) (message : BrokerMessage) :
    Sound roles (p.setService name { s with requests := s.requests.putMessage message }) := by
  obtain ⟨_, hq⟩ := hs.queue hsvc
  exact hs.setService (fun addr hmem => hs.waiting hsvc hmem) ⟨_, hq.put message⟩

/-- The worker is entered at the end of its service's `waiting`, and renewed. -/
def push (cfg : Config) (now : Int) (p : Pool) (w : Worker) (s : Service) : Pool :=
  (p.setService w.serviceName { s with waiting := s.waiting ++ [w.addr] }).setWorker
    (w.renew cfg now)

theorem workerWaiting_eq_ok {clock : Clock} (h : workerWaiting cfg clock p w = .ok (p', out)) :
    ∃ s, p.services.lookup w.serviceName = some s ∧
      dispatch clock.purge (p.push cfg clock.waiting w s) w.serviceName = .ok (p', out) := by
  unfold workerWaiting at h
  split at h
  · cases h
  · next s hsvc => exact ⟨s, hsvc, h⟩

theorem Sound.push (hs : Sound roles p) (hw : p.workers.lookup w.id = some w) (hsvc : p.services.lookup w.serviceName = some s) (cfg : Config)
    (now : Int) : Sound roles (p.push cfg now w s) := by
  have hset : Sound roles
      (p.setService w.serviceName { s with waiting := s.waiting ++ [w.addr] }) := by
    refine hs.setService (fun addr hmem => ?_) (hs.queue (s := s) hsvc)
    rcases mem_append.mp hmem with hmem | hmem
    · exact hs.waiting hsvc hmem
    · exact ⟨w, hw, (mem_singleton.mp hmem).symm, rfl⟩
  exact hset.renew hw cfg now

theorem emplaceWorker_lookup (hk : Keyed p.workers) (cfg : Config) (clock : Clock)
    (socket : Socket) (id serviceName : Bytes) :
    let r := p.emplaceWorker cfg clock socket id serviceName
    r.2.id = id ∧ r.1.workers.lookup id = some r.2 := by
  unfold emplaceWorker
  cases hlook : p.workers.lookup id with
  | some w => exact ⟨hk.id_eq hlook, hlook⟩
  | none => exact ⟨rfl, (lookup_setWorker ..).trans (if_pos rfl)⟩

@[simp] theorem emplaceWorker_services (p : Pool) (cfg : Config) (clock : Clock) (socket : Socket)
    (id serviceName : Bytes) :
    (p.emplaceWorker cfg clock socket id serviceName).1.services = p.services := by
  unfold emplaceWorker
  cases p.workers.lookup id with
  | none => rfl
  | some w => rfl

theorem Sound.emplace (hs : Sound roles p) (cfg : Config) (clock : Clock) (socket : Socket)
    (id serviceName : Bytes) : Sound roles (p.emplaceWorker cfg clock socket id serviceName).1 := by
  unfold emplaceWorker
  cases hlook : p.workers.lookup id with
  | some w => exact hs
  | none =>
    refine ⟨⟨fun {id' w} h => ?_, fun {id₁ id₂ w₁ w₂} h₁ h₂ haddr => ?_⟩, fun {id' w} h => ?_,
      fun {name s addr} hsvc hmem => ?_, hs.queue⟩
    · rw [lookup_setWorker] at h
      split_ifs at h with hid
      · cases h
        exact hid.symm
      · exact hs.keyed.id_eq h
    · rw [lookup_setWorker] at h₁ h₂
      split_ifs at h₁ h₂
      · exact (some.inj h₁).symm.trans (some.inj h₂)
      · cases h₁
        exact absurd haddr.symm (hs.addr_lt h₂).ne
      · cases h₂
        exact absurd haddr (hs.addr_lt h₁).ne
      · exact hs.keyed.addr_inj h₁ h₂ haddr
    · rw [lookup_setWorker] at h
      split_ifs at h with hid
      · cases h
        exact Nat.lt_succ_self _
      · exact Nat.lt_succ_of_lt (hs.addr_lt h)
    · obtain ⟨w, hw, haddr, hname⟩ := hs.waiting hsvc hmem
      refine ⟨w, ?_, haddr, hname⟩
      rw [lookup_setWorker, if_neg]
      · exact hw
      · intro hid
        rw [hid, hlook] at hw
        cases hw

theorem lookup_requireService (cfg : Config) (p : Pool) (name description name' : Bytes) :
    (p.requireService cfg name description).services.lookup name' =
      if name' = name then some ((p.services.lookup name).getD (newService cfg name description))
      else p.services.lookup name' :=
  lookup_tryEmplace ..

theorem mem_requireService {description name' : Bytes} :
    name' ∈ (p.requireService cfg name description).services ↔
      name' = name ∨ name' ∈ p.services := by
  rw [← lookup_isSome, ← lookup_isSome, lookup_requireService]
  split_ifs with hname
  · simp [hname]
  · simp [hname]

theorem eq_or_new_of_requireService {description name' : Bytes}
    (h : (p.requireService cfg name description).services.lookup name' = some s) :
    p.services.lookup name' = some s ∨ s = newService cfg name description := by
  rw [lookup_requireService] at h
  split_ifs at h with hname
  · cases h
    rw [hname]
    cases p.services.lookup name with
    | none => exact Or.inr rfl
    | some s => exact Or.inl rfl
  · exact Or.inl h

theorem Sound.require (hs : Sound cfg.roles p) (name description : Bytes) :
    Sound cfg.roles (p.requireService cfg name description) := by
  refine hs.mono (fun {id w} h => ⟨w, h, rfl, rfl⟩) le_rfl ?_ ?_
  · intro name' s addr hsvc hmem
    rcases eq_or_new_of_requireService hsvc with hold | rfl
    · exact hs.waiting hold hmem
    · cases hmem
  · intro name' s hsvc
    rcases eq_or_new_of_requireService hsvc with hold | rfl
    · exact hs.queue hold
    · exact ⟨[], RequestQueue.represents_empty cfg.roles⟩

/-- Deleting a worker takes it out of the services. -/
theorem lookup_deleteWorker (p : Pool) (w : Worker) (name : Bytes) :
    (p.deleteWorker w).services.lookup name =
      if name = w.serviceName then (p.services.lookup name).map
        fun s => { s with waiting := s.waiting.filter (· ≠ w.addr) }
      else p.services.lookup name := by
  unfold deleteWorker
  cases hsvc : p.services.lookup w.serviceName with
  | none =>
    split_ifs with hname
    · rw [hname, hsvc, map_none]
    · rfl
  | some s =>
    rw [lookup_setService]
    split_ifs with hname
    · rw [hname, hsvc, map_some]
    · rfl

theorem deleteWorker_workers (p : Pool) (w : Worker) :
    (p.deleteWorker w).workers = p.workers.erase w.id ∧ (p.deleteWorker w).nextAddr = p.nextAddr := by
  unfold deleteWorker
  cases p.services.lookup w.serviceName with
  | none => exact ⟨rfl, rfl⟩
  | some s => exact ⟨rfl, rfl⟩

theorem Sound.delete (hs : Sound roles p) (hw : p.workers.lookup w.id = some w) :
    Sound roles (p.deleteWorker w) := by
  obtain ⟨hwkrs, hnext⟩ := deleteWorker_workers p w
  have hkept : ∀ {name s addr}, p.services.lookup name = some s → addr ∈ s.waiting →
      addr ≠ w.addr → ∃ w', (p.deleteWorker w).workers.lookup w'.id = some w' ∧ w'.addr = addr ∧
        w'.serviceName = name := by
    intro name s addr hsvc hmem hne
    obtain ⟨w', hw', haddr, hname⟩ := hs.waiting hsvc hmem
    refine ⟨w', ?_, haddr, hname⟩
    rw [hwkrs, UMap.lookup_erase, if_neg]
    · exact hw'
    · intro hid
      rw [hid, hw] at hw'
      cases hw'
      exact hne haddr.symm
  refine hs.mono (fun {id w'} h => ⟨w', lookup_of_lookup_erase (hwkrs ▸ h), rfl, rfl⟩)
    hnext.ge ?_ ?_
  · intro name s' addr hsvc' hmem
    rw [lookup_deleteWorker] at hsvc'
    split_ifs at hsvc' with hname
    · obtain ⟨s, hsvc, rfl⟩ := map_eq_some_iff.mp hsvc'
      obtain ⟨hmem, hne⟩ := mem_filter.mp hmem
      exact hkept hsvc hmem (of_decide_eq_true hne)
    · refine hkept hsvc' hmem ?_
      rintro rfl
      exact hname (hs.serviceName_eq hw hsvc' hmem).symm
  · intro name s' hsvc'
    rw [lookup_deleteWorker] at hsvc'
    split_ifs at hsvc' with hname
    · obtain ⟨s, hsvc, rfl⟩ := map_eq_some_iff.mp hsvc'
      exact hs.queue (s := s) hsvc
    · exact hs.queue hsvc'

/-! ## What a step does to the pool -/

/-- The operations that a step is made of once the sender of a message is
entered, with the requests that are put and those that are handed out; a
worker is queued only where `Q` allows it. -/
inductive Change (cfg : Config) (Q : Pool → Worker → Prop) :
    Pool → List BrokerMessage → Pool → List Output → Prop
  | refl (p : Pool) : Change cfg Q p [] p []
  | reorder {p p' : Pool} (hworkers : p.workers.entries.Perm p'.workers.entries)
      (hservices : p.services.entries.Perm p'.services.entries)
      (hnext : p.nextAddr = p'.nextAddr) : Change cfg Q p [] p' []
  | purge {now : Int} {p p' : Pool} {out : List Output}
      (h : purgeWorkers now p = .ok (p', out)) : Change cfg Q p [] p' out
  | handOver {now : Int} {p p' : Pool} {name : Bytes} {message : BrokerMessage}
      {out : List Output} (h : handOver now p name message = .ok (p', out)) :
      Change cfg Q p [message] p' out
  | require (p : Pool) (name description : Bytes) :
      Change cfg Q p [] (p.requireService cfg name description) []
  | renew {p : Pool} {w : Worker} (hw : p.workers.lookup w.id = some w) (now : Int) :
      Change cfg Q p [] (p.setWorker (w.renew cfg now)) []
  | waiting {clock : Clock} {p p' : Pool} {w : Worker} {out : List Output}
      (hw : p.workers.lookup w.id = some w) (hQ : Q p w)
      (h : workerWaiting cfg clock p w = .ok (p', out)) : Change cfg Q p [] p' out
  | delete {p : Pool} {w : Worker} (hw : p.workers.lookup w.id = some w) :
      Change cfg Q p [] (p.deleteWorker w) []
  | trans {p p₁ p' : Pool} {put put' : List BrokerMessage} {out out' : List Output}
      (h : Change cfg Q p put p₁ out) (h' : Change cfg Q p₁ put' p' out') :
      Change cfg Q p (put ++ put') p' (out ++ out')

section
variable {cfg : Config} {Q : Pool → Worker → Prop} {put : List BrokerMessage} {out : List Output}

theorem Sound.reorder (hs : Sound roles p) (hwkrs : p.workers.entries.Perm p'.workers.entries)
    (hsvcs : p.services.entries.Perm p'.services.entries) (hnext : p.nextAddr = p'.nextAddr) :
    Sound roles p' := by
  have hw : ∀ id, p'.workers.lookup id = p.workers.lookup id := fun id =>
    (perm_lookup hwkrs).symm
  have hsv : ∀ name, p'.services.lookup name = p.services.lookup name := fun name =>
    (perm_lookup hsvcs).symm
  refine hs.mono (fun {id w} h => ⟨w, hw id ▸ h, rfl, rfl⟩) hnext.le ?_ ?_
  · intro name s addr hsvc hmem
    obtain ⟨w, hlook, haddr, hname⟩ := hs.waiting (hsv name ▸ hsvc) hmem
    exact ⟨w, (hw w.id).trans hlook, haddr, hname⟩
  · intro name s hsvc
    exact hs.queue (hsv name ▸ hsvc)

theorem Change.sound (h : Change cfg Q p put p' out) (hs : Sound cfg.roles p) :
    Sound cfg.roles p' := by
  induction h with
  | refl => exact hs
  | reorder hwkrs hsvcs hnext => exact hs.reorder hwkrs hsvcs hnext
  | purge h => exact (purgeWorkers_eq_ok hs h).sound hs
  | handOver h =>
    obtain ⟨s, hsvc, hd⟩ := handOver_eq_ok h
    exact dispatch_sound (hs.put hsvc _) hd
  | require => exact hs.require ..
  | renew hw now => exact hs.renew hw cfg now
  | waiting hw _ h =>
    obtain ⟨s, hsvc, hd⟩ := workerWaiting_eq_ok h
    exact dispatch_sound (hs.push hw hsvc cfg _) hd
  | delete hw => exact hs.delete hw
  | trans _ _ ih ih' => exact ih' (ih hs)

theorem Change.idle (h : Change cfg Q p put p' out) (hs : Sound cfg.roles p) (hidle : Idle p) :
    Idle p' := by
  induction h with
  | refl => exact hidle
  | reorder _ hsvcs _ =>
    intro name s hsvc
    exact hidle ((perm_lookup hsvcs).trans hsvc)
  | purge h =>
    intro name s hsvc
    exact (purgeWorkers_eq_ok hs h).idle (fun h => hidle h) hsvc
  | handOver h =>
    obtain ⟨s, hsvc, hd⟩ := handOver_eq_ok h
    refine dispatch_idle (hs.put hsvc _) (fun hne h => ?_) hd
    rw [lookup_setService, if_neg hne] at h
    exact hidle h
  | require p name description =>
    intro name' s hsvc
    rcases eq_or_new_of_requireService hsvc with hold | rfl
    · exact hidle hold
    · exact Or.inl rfl
  | renew => exact hidle
  | waiting hw _ h =>
    obtain ⟨s, hsvc, hd⟩ := workerWaiting_eq_ok h
    refine dispatch_idle (hs.push hw hsvc cfg _) (fun hne h => ?_) hd
    exact hidle (((lookup_setService ..).trans (if_neg hne)).symm.trans h)
  | @delete p w hw =>
    intro name s' hsvc'
    rw [lookup_deleteWorker] at hsvc'
    split_ifs at hsvc' with hname
    · obtain ⟨s, hsvc, rfl⟩ := map_eq_some_iff.mp hsvc'
      rcases hidle hsvc with hnil | hcnt
      · exact Or.inl (by rw [hnil, filter_nil])
      · exact Or.inr hcnt
    · exact hidle hsvc'
  | trans h _ ih ih' => exact ih' (h.sound hs) (ih hs hidle)

end

/-! ## Waiting once -/

/-- No worker waits twice at a service. -/
def Once (p : Pool) : Prop := ∀ ⦃name s⦄, p.services.lookup name = some s → s.waiting.Nodup

/-- The worker does not wait at its service. -/
def NotWaiting (p : Pool) (w : Worker) : Prop :=
  ∀ s, p.services.lookup w.serviceName = some s → w.addr ∉ s.waiting

theorem Once.setService (ho : Once p) (hs : s.waiting.Nodup) : Once (p.setService name s) := by
  intro name' s' hsvc
  rw [lookup_setService] at hsvc
  split_ifs at hsvc with hname
  · cases hsvc
    exact hs
  · exact ho hsvc

theorem Purged.once (h : Purged now names p p') (ho : Once p) : Once p' := by
  intro name s' hsvc'
  rw [h.services] at hsvc'
  split_ifs at hsvc' with hname
  · obtain ⟨s, hsvc, rfl⟩ := map_eq_some_iff.mp hsvc'
    exact (ho hsvc).filter _
  · exact ho hsvc'

theorem dispatch_once (hs : Sound roles p) (ho : Once p)
    (h : dispatch now p name = .ok (p', out)) : Once p' := by
  obtain ⟨_, s, _, _, hpurged, hsvc, hd, rfl⟩ := dispatch_eq_ok hs h
  exact (hpurged.once ho).setService (((ho hsvc).filter _).sublist hd.suffix.sublist)

theorem Once.push (ho : Once p)
    (hsvc : p.services.lookup w.serviceName = some s) (hnot : NotWaiting p w) (cfg : Config)
    (now : Int) : Once (p.push cfg now w s) := by
  refine Once.setService ho ?_
  exact nodup_append.mpr ⟨ho hsvc, nodup_singleton _, fun a ha a' ha' heq =>
    hnot s hsvc (mem_singleton.mp ha' ▸ heq ▸ ha)⟩

/-- A worker that is queued only while it does not wait, waits once. -/
theorem Change.once {put : List BrokerMessage}
    (h : Change cfg NotWaiting p put p' out) (hs : Sound cfg.roles p) (ho : Once p) : Once p' := by
  induction h with
  | refl => exact ho
  | reorder _ hsvcs _ =>
    intro name s hsvc
    exact ho ((perm_lookup hsvcs).trans hsvc)
  | purge h => exact (purgeWorkers_eq_ok hs h).once ho
  | handOver h =>
    obtain ⟨s, hsvc, hd⟩ := handOver_eq_ok h
    have hnd : s.waiting.Nodup := ho hsvc
    exact dispatch_once (hs.put hsvc _) (ho.setService hnd) hd
  | require p name description =>
    intro name' s hsvc
    rcases eq_or_new_of_requireService hsvc with hold | rfl
    · exact ho hold
    · exact nodup_nil
  | renew => exact ho
  | waiting hw hnot h =>
    obtain ⟨s, hsvc, hd⟩ := workerWaiting_eq_ok h
    exact dispatch_once (hs.push hw hsvc cfg _) (ho.push hsvc hnot cfg _) hd
  | @delete p w hw =>
    intro name s' hsvc'
    rw [lookup_deleteWorker] at hsvc'
    split_ifs at hsvc' with hname
    · obtain ⟨s, hsvc, rfl⟩ := map_eq_some_iff.mp hsvc'
      exact (ho hsvc).filter _
    · exact ho hsvc'
  | trans h _ ih ih' => exact ih' (h.sound hs) (ih hs ho)

include hs

/-- Two services have no address in common. -/
theorem Sound.nodup_waiting (ho : Once p) :
    (p.services.entries.flatMap fun e => e.2.waiting).Nodup := by
  refine nodup_flatMap.mpr ⟨fun e he => ho (mem_entries_iff.mp he), ?_⟩
  have hkeys : p.services.entries.Pairwise fun e e' => e.1 ≠ e'.1 :=
    pairwise_map.mp p.services.nodupKeys
  refine hkeys.imp_of_mem fun {e e'} he he' hne addr hmem hmem' => hne ?_
  obtain ⟨w, hw, rfl, hname⟩ := hs.waiting (mem_entries_iff.mp he) hmem
  rw [← hname]
  exact hs.serviceName_eq hw (mem_entries_iff.mp he') hmem'

/-! ### Nothing is undefined -/

theorem purgeWorkers_defined (ho : Once p) (now : Int) : ∃ r, purgeWorkers now p = .ok r := by
  have hloop : ∀ {names : List Bytes} {p : Pool}, Sound roles p → Once p →
      ∃ r, forEach (purgeService now) names p = .ok r := by
    intro names
    induction names with
    | nil => exact fun {p} _ _ => ⟨(p, []), rfl⟩
    | cons name names ih =>
      intro p hs ho
      obtain ⟨⟨p₁, out₁⟩, hrnd⟩ : ∃ r, purgeService now name p = .ok r := by
        unfold purgeService
        cases hsvc : p.services.lookup name with
        | none => exact ⟨_, rfl⟩
        | some s =>
          have hvalid : ∀ addr ∈ s.waiting, ∃ w, p.workers.lookup w.id = some w ∧
              w.addr = addr := by
            intro addr hmem
            obtain ⟨w, hw, haddr, -⟩ := hs.waiting hsvc hmem
            exact ⟨w, hw, haddr⟩
          obtain ⟨r, hr⟩ : ∃ r, purgeWaiting now s.waiting p.workers = .ok r :=
            purgeWaiting_defined hs.keyed (ho hsvc) hvalid
          exact ⟨_, map_eq_ok.mpr ⟨r, hr, rfl⟩⟩
      have hpurged := Purged.of_service hs hrnd
      obtain ⟨r, hr⟩ := ih (hpurged.sound hs) (hpurged.once ho)
      exact ⟨_, forEach_cons_eq_ok.mpr ⟨p₁, out₁, r.2, hrnd, hr, rfl⟩⟩
  exact hloop hs ho

omit hs

theorem dispatchLoop_defined :
    ∀ {waiting : List Nat} {q : RequestQueue} {queued : List BrokerMessage},
      (∀ addr ∈ waiting, ∃ w, deref workers addr = .ok w) → q.Represents roles queued →
      ∃ r, dispatchLoop name workers waiting q = .ok r
  | [], q, _, _, _ => ⟨([], q, []), rfl⟩
  | addr :: rest, q, queued, hvalid, hq => by
    unfold dispatchLoop
    by_cases hpos : q.requestCount > 0
    · obtain ⟨_, q₁, htake⟩ := hq.exists_take hpos
      obtain ⟨_, -, hq₁⟩ := hq.take_of_eq htake
      obtain ⟨w, hw⟩ := hvalid addr mem_cons_self
      obtain ⟨r, hr⟩ : ∃ r, dispatchLoop name workers rest q₁ = .ok r :=
        dispatchLoop_defined (fun a ha => hvalid a (mem_cons_of_mem addr ha)) hq₁
      rw [if_pos hpos, htake]
      exact ⟨_, bind_eq_ok.mpr ⟨w, hw, map_eq_ok.mpr ⟨r, hr, rfl⟩⟩⟩
    · exact ⟨_, if_neg hpos⟩

theorem dispatch_defined (hs : Sound roles p) (ho : Once p)
    (hname : name ∈ p.services) (now : Int) : ∃ r, dispatch now p name = .ok r := by
  obtain ⟨s, hsvc⟩ := isSome_iff_exists.mp (lookup_isSome.mpr hname)
  obtain ⟨⟨p₁, _⟩, hpurge⟩ := purgeWorkers_defined hs ho now
  have hpurged := purgeWorkers_eq_ok hs hpurge
  have hs₁ := hpurged.sound hs
  have hsvc₁ : p₁.services.lookup name = some (purged p.workers now s) := by
    rw [hpurged.lookup_services, hsvc, map_some]
  have hvalid : ∀ addr ∈ (purged p.workers now s).waiting, ∃ w, deref p₁.workers addr = .ok w := by
    intro addr hmem
    obtain ⟨w, hw, haddr, -⟩ := hs₁.waiting hsvc₁ hmem
    exact ⟨w, (deref_eq_ok hs₁.keyed).mpr ⟨hw, haddr⟩⟩
  obtain ⟨_, hq⟩ := hs₁.queue hsvc₁
  obtain ⟨r, hr⟩ : ∃ r, dispatchLoop name p₁.workers (purged p.workers now s).waiting
      (purged p.workers now s).requests = .ok r := dispatchLoop_defined hvalid hq
  unfold dispatch
  rw [hpurge]
  dsimp only [Except.bind]
  rw [hsvc₁]
  exact ⟨_, map_eq_ok.mpr ⟨r, hr, rfl⟩⟩

theorem mem_setService (p : Pool) (name : Bytes) (s : Service) : name ∈ (p.setService name s).services :=
  (mem_insert p.services).mpr (Or.inl rfl)

include hs

theorem handOver_defined (ho : Once p)
    (hname : name ∈ p.services) (now : Int) (message : BrokerMessage) :
    ∃ r, handOver now p name message = .ok r := by
  obtain ⟨s, hsvc⟩ := isSome_iff_exists.mp (lookup_isSome.mpr hname)
  have hnd : s.waiting.Nodup := ho hsvc
  unfold handOver
  rw [hsvc]
  exact dispatch_defined (hs.put hsvc message) (ho.setService hnd) (mem_setService ..) now

theorem workerWaiting_defined (ho : Once p)
    (hw : p.workers.lookup w.id = some w) (hname : w.serviceName ∈ p.services)
    (hnot : NotWaiting p w) (cfg : Config) (clock : Clock) :
    ∃ r, workerWaiting cfg clock p w = .ok r := by
  obtain ⟨s, hsvc⟩ := isSome_iff_exists.mp (lookup_isSome.mpr hname)
  unfold workerWaiting
  rw [hsvc]
  exact dispatch_defined (hs.push hw hsvc cfg clock.waiting)
    (ho.push hsvc hnot cfg clock.waiting) (mem_setService ..) clock.purge

theorem heartbeats_defined : ∃ r, p.heartbeats = .ok r := by
  have hloop : ∀ {addrs : List Nat}, (∀ addr ∈ addrs, ∃ w, deref p.workers addr = .ok w) →
      ∃ r, forEach (fun addr _ => (deref p.workers addr).map fun w => ((), [heartbeatTo w]))
        addrs () = .ok r := by
    intro addrs
    induction addrs with
    | nil => exact fun _ => ⟨((), []), rfl⟩
    | cons addr addrs ih =>
      intro hvalid
      obtain ⟨w, hw⟩ := hvalid addr mem_cons_self
      obtain ⟨r, hr⟩ := ih fun a ha => hvalid a (mem_cons_of_mem addr ha)
      exact ⟨_, forEach_cons_eq_ok.mpr ⟨(), _, r.2, map_eq_ok.mpr ⟨w, hw, rfl⟩, hr, rfl⟩⟩
  refine hloop fun addr hmem => ?_
  obtain ⟨e, he, hmem⟩ := mem_flatMap.mp hmem
  obtain ⟨w, hw, haddr, -⟩ := hs.waiting (mem_entries_iff.mp he) hmem
  exact ⟨w, (deref_eq_ok hs.keyed).mpr ⟨hw, haddr⟩⟩

omit hs

/-- The best match is one of the services. -/
theorem mem_of_bestMatchingService {serviceName : Bytes}
    (h : p.bestMatchingService serviceName = some name) : name ∈ p.services := by
  have hloop : ∀ (entries : List (Sigma fun _ : Bytes => Service)) (best : Option (Bytes × Bytes)),
      (∀ r ∈ best, r.2 ∈ p.services) → (∀ e ∈ entries, e.1 ∈ p.services) →
      ∀ r ∈ entries.foldl (betterService serviceName) best, r.2 ∈ p.services := by
    intro entries
    induction entries with
    | nil => exact fun best hbest _ => hbest
    | cons e entries ih =>
      intro best hbest hents
      refine ih _ (fun r hr => ?_) fun e' he' => hents e' (mem_cons_of_mem e he')
      have he := hents e mem_cons_self
      unfold betterService at hr
      dsimp only at hr
      split_ifs at hr with hstarts
      · cases best with
        | none =>
          cases hr
          exact he
        | some best =>
          dsimp only at hr
          split_ifs at hr
          · cases hr
            exact he
          · exact hbest r hr
      · exact hbest r hr
  obtain ⟨r, hr, rfl⟩ := map_eq_some_iff.mp h
  exact hloop _ none (by simp) (fun e he => mem_keys.mpr (mem_map_of_mem he)) r hr

end OpenCmw.Pool
