import Mathlib

/-!
# Maps and sets

`std::map` and `std::set`: a list of entries with strictly increasing
keys, the order being a field of the structure (`SortedMap`). Iteration
is the entry list itself, so programs that search the iteration order -
not only look up keys - can be stated over it. A set is a map to `Unit`;
`keys_nodup` is what makes counting its elements meaningful.

`std::unordered_map` is Mathlib's association list (`UMap`): the entries
are in *some* order, and a program whose result could depend on it has to
be run on every permutation of them.

Fallible code is in `Except`; `bind_eq_ok` takes a computation that
succeeded apart, and `forEach` is a loop whose body changes a state and puts
something out.
-/

namespace OpenCmw

open Or (inr inl)
open List Option AList

/-- A map whose entries are in strictly increasing key order. -/
@[ext]
structure SortedMap (K V : Type) [LinearOrder K] where
  entries : List (K × V)
  sorted : entries.Pairwise fun a b => a.1 < b.1

namespace SortedMap

variable {K V : Type} [LinearOrder K]

instance [DecidableEq V] : DecidableEq (SortedMap K V) := fun a b =>
  decidable_of_iff (a.entries = b.entries) SortedMap.ext_iff.symm

instance : EmptyCollection (SortedMap K V) := ⟨⟨[], List.Pairwise.nil⟩⟩

instance : Inhabited (SortedMap K V) := ⟨∅⟩

/-! ## Lookup -/

/-- `find(k)`. -/
def find? (m : SortedMap K V) (k : K) : Option V := m.entries.lookup k

def keys (m : SortedMap K V) : List K := m.entries.map (·.1)

theorem keys_nodup (m : SortedMap K V) : m.keys.Nodup :=
  pairwise_map.mpr (m.sorted.imp fun h => ne_of_lt h)

theorem lookup_eq_some_iff : ∀ {l : List (K × V)}, (l.Pairwise fun a b => a.1 < b.1) →
    ∀ {k : K} {v : V}, l.lookup k = some v ↔ (k, v) ∈ l
  | [], _, _, _ => by simp
  | (k', v') :: l, hl, k, v => by
    rw [pairwise_cons] at hl
    by_cases hk : k = k'
    · subst hk
      have hno : (k, v) ∉ l := fun hm => lt_irrefl k (hl.1 (k, v) hm)
      simp [List.lookup, hno, eq_comm]
    · have hbeq : (k == k') = false := by simp [hk]
      rw [List.lookup, hbeq]
      simpa [hk] using lookup_eq_some_iff hl.2

variable {m : SortedMap K V} {k : K} {v : V} {k' : K} {l : List (K × V)}

theorem find?_eq_some_iff : m.find? k = some v ↔ (k, v) ∈ m.entries := lookup_eq_some_iff m.sorted

theorem mem_keys_iff : k ∈ m.keys ↔ ∃ v, m.find? k = some v := by
  simp [keys, find?_eq_some_iff]

/-! ## Insertion and removal -/

/-- `m[k] = v` on the entry list. -/
def insertEntry (k : K) (v : V) : List (K × V) → List (K × V)
  | [] => [(k, v)]
  | (k', v') :: l =>
    if k < k' then (k, v) :: (k', v') :: l
    else if k = k' then (k, v) :: l
    else (k', v') :: insertEntry k v l

theorem mem_insertEntry {x : K × V} : ∀ {l : List (K × V)}, (l.Pairwise fun a b => a.1 < b.1) →
      (x ∈ insertEntry k v l ↔ x = (k, v) ∨ (x ∈ l ∧ x.1 ≠ k))
  | [], _ => by simp [insertEntry]
  | (k', v') :: l, hl => by
    rw [pairwise_cons] at hl
    unfold insertEntry
    split_ifs with hlt heq
    · have hne : ∀ y ∈ (k', v') :: l, y.1 ≠ k := by
        rintro y (_ | ⟨_, hy⟩) rfl
        · exact lt_irrefl _ hlt
        · exact lt_asymm hlt (hl.1 y hy)
      rw [mem_cons]
      exact or_congr_right ⟨fun h => ⟨h, hne x h⟩, And.left⟩
    · subst heq
      have hne : ∀ y ∈ l, y.1 ≠ k := fun y hy h => lt_irrefl _ (h ▸ hl.1 y hy)
      rw [mem_cons, mem_cons]
      refine or_congr_right ⟨fun h => ⟨inr h, hne x h⟩, ?_⟩
      rintro ⟨rfl | h, hk⟩
      · exact absurd rfl hk
      · exact h
    · rw [mem_cons, mem_insertEntry hl.2, mem_cons]
      constructor
      · rintro (rfl | rfl | ⟨h, hk⟩)
        · exact inr ⟨inl rfl, fun h => heq h.symm⟩
        · exact inl rfl
        · exact inr ⟨inr h, hk⟩
      · rintro (rfl | ⟨rfl | h, hk⟩)
        · exact inr (inl rfl)
        · exact inl rfl
        · exact inr (inr ⟨h, hk⟩)

theorem sorted_insertEntry (k : K) (v : V) :
    ∀ {l : List (K × V)}, (l.Pairwise fun a b => a.1 < b.1) →
      (insertEntry k v l).Pairwise fun a b => a.1 < b.1
  | [], _ => pairwise_singleton ..
  | (k', v') :: l, hl => by
    have hcons := pairwise_cons.mp hl
    unfold insertEntry
    split_ifs with hlt heq
    · refine pairwise_cons.mpr ⟨?_, hl⟩
      rintro y (_ | ⟨_, hy⟩)
      · exact hlt
      · exact lt_trans hlt (hcons.1 y hy)
    · subst heq
      exact pairwise_cons.mpr hcons
    · refine pairwise_cons.mpr ⟨fun y hy => ?_, sorted_insertEntry k v hcons.2⟩
      rcases (mem_insertEntry hcons.2).mp hy with rfl | ⟨h, -⟩
      · exact lt_of_le_of_ne (not_lt.mp hlt) fun h => heq h.symm
      · exact hcons.1 y h

/-- `m[k] = v`. -/
def insert (m : SortedMap K V) (k : K) (v : V) : SortedMap K V :=
  ⟨insertEntry k v m.entries, sorted_insertEntry k v m.sorted⟩

/-- `try_emplace(k, v)`: an entry that exists is kept. -/
def tryEmplace (m : SortedMap K V) (k : K) (v : V) : SortedMap K V :=
  if (m.find? k).isSome then m else m.insert k v

/-- `erase(k)`. -/
def erase (m : SortedMap K V) (k : K) : SortedMap K V :=
  ⟨m.entries.filter fun e => e.1 != k, m.sorted.filter _⟩

/-- `erase(begin(), begin() + n)`. -/
def eraseFirst (m : SortedMap K V) (n : Nat) : SortedMap K V :=
  ⟨m.entries.drop n, m.sorted.drop⟩

theorem mem_insert {x : K × V} :
    x ∈ (m.insert k v).entries ↔ x = (k, v) ∨ (x ∈ m.entries ∧ x.1 ≠ k) :=
  mem_insertEntry m.sorted

theorem find?_insert_self (m : SortedMap K V) (k : K) (v : V) : (m.insert k v).find? k = some v :=
  find?_eq_some_iff.mpr (mem_insert.mpr (inl rfl))

theorem find?_insert_of_ne (m : SortedMap K V) (v : V) (h : k' ≠ k) :
    (m.insert k v).find? k' = m.find? k' := by
  ext u
  rw [find?_eq_some_iff, find?_eq_some_iff, mem_insert]
  simp [h]

theorem find?_erase_self (m : SortedMap K V) (k : K) : (m.erase k).find? k = none := by
  refine eq_none_iff_forall_ne_some.mpr fun v hv => ?_
  rw [find?_eq_some_iff, erase, mem_filter] at hv
  simp at hv

theorem find?_erase_of_ne (m : SortedMap K V) (h : k' ≠ k) : (m.erase k).find? k' = m.find? k' := by
  ext u
  rw [find?_eq_some_iff, find?_eq_some_iff, erase, mem_filter]
  simp [h]

theorem find?_of_erase (h : (m.erase k).find? k' = some v) : m.find? k' = some v :=
  find?_eq_some_iff.mpr (mem_of_mem_filter (find?_eq_some_iff.mp h))

theorem find?_of_eraseFirst {n : Nat}
    (h : (m.eraseFirst n).find? k = some v) : m.find? k = some v :=
  find?_eq_some_iff.mpr (mem_of_mem_drop (find?_eq_some_iff.mp h))

theorem mem_keys_insert : k' ∈ (m.insert k v).keys ↔ k' = k ∨ k' ∈ m.keys := by
  by_cases h : k' = k
  · subst h
    simp [mem_keys_iff, find?_insert_self]
  · simp [mem_keys_iff, find?_insert_of_ne m v h, h]

theorem mem_keys_erase : k' ∈ (m.erase k).keys ↔ k' ≠ k ∧ k' ∈ m.keys := by
  simp only [keys, erase, List.mem_map, mem_filter, bne_iff_ne]
  constructor
  · rintro ⟨x, ⟨hx, hne⟩, rfl⟩
    exact ⟨hne, x, hx, rfl⟩
  · rintro ⟨hne, x, hx, rfl⟩
    exact ⟨x, ⟨hx, hne⟩, rfl⟩

/-- The map built from a range of pairs; the first of two equal keys stays. -/
def ofEntries (l : List (K × V)) : SortedMap K V :=
  l.foldl (fun m e => m.tryEmplace e.1 e.2) ∅

theorem tryEmplace_of_none (h : m.find? k = none) (v : V) : m.tryEmplace k v = m.insert k v := by
  rw [tryEmplace, h]
  rfl

theorem find?_tryEmplace {v' : V} (h : (m.tryEmplace k v).find? k' = some v') :
    m.find? k' = some v' ∨ (k' = k ∧ v' = v) := by
  unfold tryEmplace at h
  split_ifs at h
  · exact inl h
  · by_cases hk : k' = k
    · subst hk
      rw [find?_insert_self] at h
      exact inr ⟨rfl, (some.inj h).symm⟩
    · rw [find?_insert_of_ne _ _ hk] at h
      exact inl h

theorem find?_foldl_tryEmplace : ∀ {l : List (K × V)} {m : SortedMap K V},
    (l.map (·.1)).Nodup → (∀ e ∈ l, m.find? e.1 = none) →
      ((l.foldl (fun m e => m.tryEmplace e.1 e.2) m).find? k = some v ↔
        (k, v) ∈ l ∨ m.find? k = some v)
  | [], m, _, _ => by simp
  | e :: l, m, hnd, hfresh => by
    obtain ⟨he, hnd⟩ := nodup_cons.mp hnd
    have hnone := hfresh e mem_cons_self
    have hrest : ∀ e' ∈ l, (m.insert e.1 e.2).find? e'.1 = none := by
      intro e' he'
      rw [find?_insert_of_ne, hfresh e' (mem_cons_of_mem _ he')]
      exact fun heq => he (mem_map.mpr ⟨e', he', heq⟩)
    rw [foldl_cons, tryEmplace_of_none hnone, find?_foldl_tryEmplace hnd hrest,
      find?_eq_some_iff, find?_eq_some_iff, mem_insert, mem_cons]
    have hkeep : (k, v) ∈ m.entries → k ≠ e.1 := by
      rintro hmem rfl
      rw [find?_eq_some_iff.mpr hmem] at hnone
      cases hnone
    constructor
    · rintro (hl | heq | ⟨hm, -⟩)
      · exact inl (inr hl)
      · exact inl (inl heq)
      · exact inr hm
    · rintro ((heq | hl) | hm)
      · exact inr (inl heq)
      · exact inl hl
      · exact inr (inr ⟨hm, hkeep hm⟩)

/-- Of entries with different keys, each is found. -/
theorem find?_ofEntries (h : (l.map (·.1)).Nodup) :
    (ofEntries l).find? k = some v ↔ (k, v) ∈ l := by
  rw [ofEntries, find?_foldl_tryEmplace h fun _ _ => rfl]
  simp [find?_eq_some_iff, show (∅ : SortedMap K V).entries = [] from rfl]

theorem entries_nodup (m : SortedMap K V) : m.entries.Nodup :=
  m.sorted.imp fun h heq => absurd (heq ▸ h) (lt_irrefl _)

/-- Maps that find the same are the same. -/
theorem ext_find? {m' : SortedMap K V} (h : ∀ k v, m.find? k = some v ↔ m'.find? k = some v) :
    m = m' := by
  have hperm : m.entries.Perm m'.entries :=
    (perm_ext_iff_of_nodup m.entries_nodup m'.entries_nodup).mpr fun ⟨k, v⟩ => by
      rw [← find?_eq_some_iff, ← find?_eq_some_iff]
      exact h k v
  exact SortedMap.ext (hperm.eq_of_pairwise (fun a b _ _ hab hba => absurd hab (lt_asymm hba))
    m.sorted m'.sorted)

theorem ofEntries_perm (h : l.Perm m.entries) : ofEntries l = m :=
  ext_find? fun _ _ => by
    rw [find?_ofEntries ((h.map _).nodup_iff.mpr m.keys_nodup), find?_eq_some_iff, h.mem_iff]

theorem ofEntries_entries (m : SortedMap K V) : ofEntries m.entries = m := ofEntries_perm (.refl _)

/-- A set from its elements. -/
theorem ofEntries_keys (m : SortedMap K Unit) : ofEntries (m.keys.map fun k => (k, ())) = m := by
  have hents : (m.keys.map fun k => (k, ())) = m.entries := by
    rw [keys, List.map_map]
    exact List.map_id'' (fun _ => rfl) _
  rw [hents, ofEntries_entries]

/-- A key that is made for an assignment leaves no trace. -/
theorem insert_tryEmplace (m : SortedMap K V) (k : K) (d v : V) :
    (m.tryEmplace k d).insert k v = m.insert k v := by
  refine ext_find? fun k' v' => ?_
  by_cases hk : k' = k
  · rw [hk, find?_insert_self, find?_insert_self]
  · rw [find?_insert_of_ne _ _ hk, find?_insert_of_ne _ _ hk, tryEmplace]
    by_cases hfind : (m.find? k).isSome = true
    · rw [if_pos hfind]
    · rw [if_neg hfind, find?_insert_of_ne _ _ hk]

/-! ## Sums over the values -/

/-- The sum of `g` over the values. -/
def total (g : V → Nat) (m : SortedMap K V) : Nat := (m.entries.map fun e => g e.2).sum

theorem total_pos_iff {g : V → Nat} : 0 < total g m ↔ ∃ k v, m.find? k = some v ∧ 0 < g v := by
  rw [total, List.sum_pos_iff_exists_pos_nat]
  simp only [List.mem_map, find?_eq_some_iff]
  constructor
  · rintro ⟨_, ⟨⟨k, v⟩, hmem, rfl⟩, hpos⟩
    exact ⟨k, v, hmem, hpos⟩
  · rintro ⟨k, v, hmem, hpos⟩
    exact ⟨_, ⟨(k, v), hmem, rfl⟩, hpos⟩

theorem entries_insert_perm (m : SortedMap K V) (k : K) (v : V) :
    (m.insert k v).entries.Perm ((k, v) :: (m.erase k).entries) := by
  have hnot : (k, v) ∉ (m.erase k).entries := by simp [erase]
  refine (perm_ext_iff_of_nodup (entries_nodup _)
    (nodup_cons.mpr ⟨hnot, entries_nodup _⟩)).mpr fun x => ?_
  rw [mem_insert, mem_cons, erase, mem_filter]
  simp

theorem total_erase (m : SortedMap K V) (k : K) (g : V → Nat) :
    total g (m.erase k) + (m.find? k).elim 0 g = total g m := by
  cases hfind : m.find? k with
  | none =>
    have hsame : (m.erase k).entries = m.entries := by
      refine filter_eq_self.mpr fun e he => bne_iff_ne.mpr ?_
      rintro rfl
      rw [find?_eq_some_iff.mpr he] at hfind
      cases hfind
    rw [total, total, hsame]
    rfl
  | some v =>
    have hmem := find?_eq_some_iff.mp hfind
    have hperm : m.entries.Perm ((k, v) :: (m.erase k).entries) := by
      refine (perm_ext_iff_of_nodup m.entries_nodup
        (nodup_cons.mpr ⟨by simp [erase], entries_nodup _⟩)).mpr fun x => ?_
      rw [mem_cons, erase, mem_filter, bne_iff_ne]
      constructor
      · intro hx
        by_cases hk : x.1 = k
        · left
          have hxv := find?_eq_some_iff.mpr hx
          rw [hk, hfind] at hxv
          exact Prod.ext hk (some.inj hxv).symm
        · exact inr ⟨hx, hk⟩
      · rintro (rfl | ⟨hx, -⟩)
        · exact hmem
        · exact hx
    rw [total, total, (hperm.map _).sum_eq, map_cons, sum_cons, elim_some, Nat.add_comm]

theorem total_insert (m : SortedMap K V) (k : K) (v : V) (g : V → Nat) :
    total g (m.insert k v) + (m.find? k).elim 0 g = total g m + g v := by
  have hinsert : total g (m.insert k v) = g v + total g (m.erase k) := by
    rw [total, ((entries_insert_perm m k v).map _).sum_eq, map_cons, sum_cons, total]
  have herase := total_erase m k g
  omega

/-- `m[k] = v` for each entry of a list. -/
def assignAll (l : List (K × V)) (m : SortedMap K V) : SortedMap K V :=
  l.foldl (fun m e => m.insert e.1 e.2) m

theorem find?_assignAll : ∀ {l : List (K × V)} {m : SortedMap K V},
    (l.map (·.1)).Nodup → ((assignAll l m).find? k = some v ↔
      (k, v) ∈ l ∨ k ∉ l.map (·.1) ∧ m.find? k = some v)
  | [], m, _ => by simp [assignAll]
  | e :: l, m, hnd => by
    obtain ⟨he, hnd⟩ := nodup_cons.mp hnd
    have hstep : assignAll (e :: l) m = assignAll l (m.insert e.1 e.2) := rfl
    rw [hstep, find?_assignAll hnd, find?_eq_some_iff, mem_insert, ← find?_eq_some_iff,
      mem_cons, map_cons, mem_cons]
    constructor
    · rintro (hl | ⟨hk, heq | ⟨hm, hne⟩⟩)
      · exact inl (inr hl)
      · exact inl (inl heq)
      · exact inr ⟨fun h => h.elim hne hk, hm⟩
    · rintro ((heq | hl) | ⟨hk, hm⟩)
      · cases heq
        exact inr ⟨he, inl rfl⟩
      · exact inl hl
      · exact inr ⟨fun h => hk (inr h), inr ⟨hm, fun h => hk (inl h)⟩⟩

/-- Assigning the entries of a map, in any order, to one that has no other
keys gives that map. -/
theorem assignAll_of_perm {m' : SortedMap K V} (hl : l.Perm m'.entries)
    (hkeys : ∀ k ∈ m.keys, k ∈ m'.keys) : assignAll l m = m' := by
  have hnames : (l.map (·.1)).Perm m'.keys := hl.map _
  have hnd : (l.map (·.1)).Nodup := hnames.nodup_iff.mpr m'.keys_nodup
  refine ext_find? fun k v => ?_
  rw [find?_assignAll hnd, hl.mem_iff, ← find?_eq_some_iff]
  constructor
  · rintro (h | ⟨hk, hm⟩)
    · exact h
    · exact absurd (hnames.mem_iff.mpr (hkeys k (mem_keys_iff.mpr ⟨v, hm⟩))) hk
  · exact inl

end SortedMap

/-! ## Unordered maps -/

/-- `std::unordered_map`, iterated in the order of its entries. -/
abbrev UMap (K V : Type) := AList fun _ : K => V

namespace UMap

variable {K V : Type} [DecidableEq K]

/-- `try_emplace(k, v)`: an entry that exists is kept. -/
def tryEmplace (m : UMap K V) (k : K) (v : V) : UMap K V :=
  if k ∈ m then m else m.insert k v

theorem lookup_insert (m : UMap K V) (k k' : K) (v : V) :
    (m.insert k v).lookup k' = if k' = k then some v else m.lookup k' := by
  by_cases h : k' = k
  · subst h
    rw [if_pos rfl, AList.lookup_insert]
  · rw [if_neg h, lookup_insert_ne h]

theorem lookup_erase (m : UMap K V) (k k' : K) :
    (m.erase k).lookup k' = if k' = k then none else m.lookup k' := by
  by_cases h : k' = k
  · subst h
    rw [if_pos rfl, AList.lookup_erase]
  · rw [if_neg h, lookup_erase_ne h]

theorem lookup_tryEmplace (m : UMap K V) (k k' : K) (v : V) :
    (m.tryEmplace k v).lookup k' = if k' = k then some ((m.lookup k).getD v) else m.lookup k' := by
  unfold tryEmplace
  by_cases hm : k ∈ m
  · obtain ⟨u, hu⟩ := isSome_iff_exists.mp (lookup_isSome.mpr hm)
    rw [if_pos hm, hu]
    split_ifs with h
    · rw [h, hu, getD_some]
    · rfl
  · rw [if_neg hm, lookup_insert, lookup_eq_none.mpr hm, getD_none]

variable {k : K} {v : V} {m : UMap K V}

theorem lookup_foldl_tryEmplace : ∀ {l : List (K × V)} {m : UMap K V},
    (l.map (·.1)).Nodup → (∀ e ∈ l, m.lookup e.1 = none) →
      ((l.foldl (fun m e => tryEmplace m e.1 e.2) m).lookup k = some v ↔
        (k, v) ∈ l ∨ m.lookup k = some v)
  | [], m, _, _ => by simp
  | e :: l, m, hnd, hfresh => by
    obtain ⟨he, hnd⟩ := nodup_cons.mp hnd
    have hnone := hfresh e mem_cons_self
    have hrest : ∀ e' ∈ l, (tryEmplace m e.1 e.2).lookup e'.1 = none := by
      intro e' he'
      rw [lookup_tryEmplace, if_neg, hfresh e' (mem_cons_of_mem _ he')]
      exact fun heq => he (mem_map.mpr ⟨e', he', heq⟩)
    rw [foldl_cons, lookup_foldl_tryEmplace hnd hrest, lookup_tryEmplace, mem_cons, hnone]
    by_cases hk : k = e.1
    · subst hk
      have hnot : (e.1, v) ∉ l := fun h => he (mem_map_of_mem (f := (·.1)) h)
      simp only [hnot, if_true, hnone, false_or, or_false, reduceCtorEq, some.injEq,
        getD_none]
      exact ⟨fun h => Prod.ext rfl h.symm, fun h => (congrArg Prod.snd h).symm⟩
    · have hne : (k, v) ≠ e := fun h => hk (congrArg Prod.fst h)
      simp only [hk, hne, if_false, false_or]

/-- `std::erase_if`. -/
def eraseIf (m : UMap K V) (p : K → V → Bool) : UMap K V :=
  ⟨m.entries.filter fun e => !p e.1 e.2, m.nodupKeys.sublist filter_sublist⟩

theorem mem_entries_iff : ⟨k, v⟩ ∈ m.entries ↔ m.lookup k = some v := mem_lookup_iff.symm

theorem lookup_eraseIf {p : K → V → Bool} :
    (m.eraseIf p).lookup k = some v ↔ m.lookup k = some v ∧ p k v = false := by
  rw [← mem_entries_iff, ← mem_entries_iff, eraseIf, mem_filter, Bool.not_eq_true']

/-- The sum of `g` over the values. -/
def total (g : V → Nat) (m : UMap K V) : Nat := (m.entries.map fun e => g e.2).sum

omit [DecidableEq K] in
theorem total_perm {m' : UMap K V} (h : m.entries.Perm m'.entries) (g : V → Nat) :
    total g m = total g m' := (h.map _).sum_eq

theorem total_pos_iff {g : V → Nat} : 0 < total g m ↔ ∃ k v, m.lookup k = some v ∧ 0 < g v := by
  rw [total, List.sum_pos_iff_exists_pos_nat]
  simp only [List.mem_map, ← mem_entries_iff]
  constructor
  · rintro ⟨_, ⟨⟨k, v⟩, hmem, rfl⟩, hpos⟩
    exact ⟨k, v, hmem, hpos⟩
  · rintro ⟨k, v, hmem, hpos⟩
    exact ⟨_, ⟨⟨k, v⟩, hmem, rfl⟩, hpos⟩

theorem total_erase (m : UMap K V) (k : K) (g : V → Nat) :
    total g (m.erase k) + (m.lookup k).elim 0 g = total g m := by
  by_cases hk : k ∈ m
  · obtain ⟨v, l₁, l₂, -, hents, hkerase⟩ := exists_of_kerase hk
    have hlook : m.lookup k = some v := by
      rw [← mem_entries_iff, hents]
      exact mem_append_right _ mem_cons_self
    have herase : (m.erase k).entries = l₁ ++ l₂ := hkerase
    rw [hlook, total, total, herase, hents]
    simp only [map_append, map_cons, sum_append, sum_cons, elim_some]
    omega
  · have herase : (m.erase k).entries = m.entries := kerase_of_notMem_keys hk
    rw [lookup_eq_none.mpr hk, total, total, herase]
    rfl

theorem total_insert (m : UMap K V) (k : K) (v : V) (g : V → Nat) :
    total g (m.insert k v) + (m.lookup k).elim 0 g = total g m + g v := by
  have hinsert : total g (m.insert k v) = g v + total g (m.erase k) := rfl
  have herase := total_erase m k g
  omega

/-- A new value that counts for nothing. -/
theorem total_tryEmplace (m : UMap K V) (k : K) {g : V → Nat} (hv : g v = 0) :
    total g (m.tryEmplace k v) = total g m := by
  unfold tryEmplace
  split_ifs with hk
  · rfl
  · have hinsert := total_insert m k v g
    rw [lookup_eq_none.mpr hk, elim_none, hv] at hinsert
    exact hinsert

omit [DecidableEq K] in
theorem total_eraseIf_le (m : UMap K V) (p : K → V → Bool) (g : V → Nat) :
    total g (m.eraseIf p) ≤ total g m :=
  List.Sublist.sum_le_sum (List.Sublist.map (fun e : Sigma fun _ : K => V => g e.2)
    filter_sublist) fun _ _ => Nat.zero_le _

end UMap

/-! ## Counting -/

variable {α β ε : Type} {x : Except ε α} {σ ω : Type} {f : α → σ → Except ε (σ × List ω)}

/-- In a list without duplicates, at most one element contributes what is
counted for it alone. -/
theorem countP_flatMap_of_nodup [DecidableEq α] {f : α → List β} {p : β → Bool}
    {a : α} : ∀ {l : List α}, l.Nodup → (∀ x ∈ l, x ≠ a → (f x).countP p = 0) →
      (l.flatMap f).countP p = if a ∈ l then (f a).countP p else 0
  | [], _, _ => by simp
  | x :: l, hl, hne => by
    obtain ⟨hx, hl⟩ := nodup_cons.mp hl
    have ih := countP_flatMap_of_nodup hl fun y hy => hne y (mem_cons_of_mem x hy)
    rw [flatMap_cons, countP_append, ih]
    by_cases hxa : x = a
    · subst hxa
      simp [hx]
    · rw [hne x mem_cons_self hxa, Nat.zero_add]
      simp [Ne.symm hxa]

/-! ## Fallible computations -/

theorem ok_bind (a : α) (f : α → Except ε β) : (Except.ok a >>= f) = f a := rfl

theorem error_bind (e : ε) (f : α → Except ε β) : (Except.error e >>= f) = .error e := rfl

theorem bind_eq_ok {f : α → Except ε β} {b : β} :
    x.bind f = .ok b ↔ ∃ a, x = .ok a ∧ f a = .ok b := by
  cases x with
  | error e => simp [Except.bind]
  | ok a => simp [Except.bind]

theorem map_eq_ok {f : α → β} {b : β} : x.map f = .ok b ↔ ∃ a, x = .ok a ∧ f a = b := by
  cases x with
  | error e => simp [Except.map]
  | ok a => simp [Except.map]

theorem mapM_eq_ok_map {f : α → Except ε β} {g : α → β} :
    ∀ {as : List α}, (∀ a ∈ as, f a = .ok (g a)) → as.mapM f = .ok (as.map g)
  | [], _ => rfl
  | a :: as, h => by
    rw [mapM_cons, h a (mem_cons_self ..), ok_bind,
      mapM_eq_ok_map fun b hb => h b (mem_cons_of_mem a hb)]
    rfl

theorem toOption_eq_some {a : α} : x.toOption = some a ↔ x = .ok a := by
  cases x with
  | error e => simp [Except.toOption]
  | ok a => simp [Except.toOption]

/-- `for (x : xs) f(x)`, with the outputs of all rounds. -/
def forEach {ε α σ ω : Type} (f : α → σ → Except ε (σ × List ω)) :
    List α → σ → Except ε (σ × List ω)
  | [], s => .ok (s, [])
  | x :: xs, s =>
    (f x s).bind fun r => (forEach f xs r.1).map fun r' => (r'.1, r.2 ++ r'.2)

theorem forEach_cons_eq_ok {x : α} {xs : List α} {s s' : σ} {out : List ω} :
    forEach f (x :: xs) s = .ok (s', out) ↔ ∃ s₁ out₁ out₂, f x s = .ok (s₁, out₁) ∧
      forEach f xs s₁ = .ok (s', out₂) ∧ out = out₁ ++ out₂ := by
  rw [forEach, bind_eq_ok]
  constructor
  · rintro ⟨⟨s₁, out₁⟩, hx, hrest⟩
    obtain ⟨⟨_, out₂⟩, hxs, heq⟩ := map_eq_ok.mp hrest
    cases heq
    exact ⟨s₁, out₁, out₂, hx, hxs, rfl⟩
  · rintro ⟨s₁, out₁, out₂, hx, hxs, rfl⟩
    exact ⟨(s₁, out₁), hx, map_eq_ok.mpr ⟨(s', out₂), hxs, rfl⟩⟩

/-- What each round keeps, the loop keeps. -/
theorem forEach_invariant
    (I : σ → Prop) (hrnd : ∀ x s s' out, I s → f x s = .ok (s', out) → I s') :
    ∀ {xs : List α} {s s' : σ} {out : List ω}, forEach f xs s = .ok (s', out) → I s → I s'
  | [], s, s', out, h, hI => by
    cases h
    exact hI
  | x :: xs, s, s', out, h, hI => by
    obtain ⟨s₁, out₁, _, hx, hxs, -⟩ := forEach_cons_eq_ok.mp h
    exact forEach_invariant I hrnd hxs (hrnd x s s₁ out₁ hI hx)

/-- What holds of the outputs of each round holds of those of the loop. -/
theorem forEach_outputs {Q : ω → Prop}
    (hrnd : ∀ x s s' out, f x s = .ok (s', out) → ∀ o ∈ out, Q o) :
    ∀ {xs : List α} {s s' : σ} {out : List ω}, forEach f xs s = .ok (s', out) → ∀ o ∈ out, Q o
  | [], s, s', out, h => by
    cases h
    simp
  | x :: xs, s, s', out, h => by
    obtain ⟨s₁, out₁, _, hx, hxs, rfl⟩ := forEach_cons_eq_ok.mp h
    intro o ho
    rcases mem_append.mp ho with ho | ho
    · exact hrnd x s s₁ out₁ hx o ho
    · exact forEach_outputs hrnd hxs o ho

end OpenCmw
