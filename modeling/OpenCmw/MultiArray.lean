import Mathlib

/-!
# Indices of a multi-dimensional array

`index` maps a multi-index to a position in the raw vector and `indices` maps
it back, both in `uint32_t`. `index` scales the offset of a dimension by its
stride, `indices` subtracts it as it is. What is left over by that reaches
the last dimension, whose stride is one, so it shows in some index:
`indices` inverts `index` exactly where no offset is scaled
(`indices_index_iff`).
-/

namespace OpenCmw.MultiArray

open UInt32 (ofNat_add ofNat_mul ofNat_toNat ofNat_sub ofNat_div)

/-- What `dims_`, `strides_` and `offsets_` hold for one dimension. -/
structure Dimension where
  n : UInt32
  stride : UInt32
  offset : UInt32

/-- The loop of `index`. -/
def indexFrom : List Dimension → List UInt32 → UInt32 → UInt32
  | d :: ds, i :: is, index => indexFrom ds is (index + (d.offset + i) * d.stride)
  | _, _, index => index

def index (ds : List Dimension) (is : List UInt32) : UInt32 := indexFrom ds is 0

/-- A stride of zero has no defined effect; `Layout` has none. -/
def indices : List Dimension → UInt32 → List UInt32
  | [], _ => []
  | d :: ds, index =>
    let index := index - d.offset
    let i := index / d.stride
    i :: indices ds (index - i * d.stride)

/-- One dimension at least, and the inner dimensions with their offsets fit
into one step of the outer one. -/
def Layout : List Dimension → Prop
  | [] => False
  | [d] => d.stride = 1
  | d :: e :: ds => (e.offset.toNat + e.n.toNat) * e.stride.toNat ≤ d.stride.toNat ∧ Layout (e :: ds)

/-- A multi-index of the array. -/
def Valid : List Dimension → List UInt32 → Prop := List.Forall₂ fun d i => i < d.n

/-- The position without overflow. -/
def position : List Dimension → List UInt32 → Nat
  | d :: ds, i :: is => (d.offset.toNat + i.toNat) * d.stride.toNat + position ds is
  | _, _ => 0

theorem indexFrom_eq : ∀ (ds : List Dimension) (is : List UInt32) (index : UInt32),
    indexFrom ds is index = index + .ofNat (position ds is)
  | [], _, index | _ :: _, [], index => (UInt32.add_zero index).symm
  | d :: ds, i :: is, index => by
    rw [indexFrom, indexFrom_eq ds is, position, ofNat_add, ofNat_mul, ofNat_add, ofNat_toNat,
      ofNat_toNat, ofNat_toNat, UInt32.add_assoc]

theorem index_eq (ds : List Dimension) (is : List UInt32) : index ds is = .ofNat (position ds is) :=
  (indexFrom_eq ds is 0).trans (UInt32.zero_add _)

/-- One round of `indices` on a position that the offset does not exceed. -/
theorem indices_cons {d : Dimension} (ds : List Dimension) {x : Nat} (hx : x < 2 ^ 32)
    (hoffset : d.offset.toNat ≤ x) :
    indices (d :: ds) (.ofNat x) = .ofNat ((x - d.offset.toNat) / d.stride.toNat) ::
      indices ds (.ofNat ((x - d.offset.toNat) % d.stride.toNat)) := by
  have hmod : (x - d.offset.toNat) % d.stride.toNat = x - d.offset.toNat -
      (x - d.offset.toNat) / d.stride.toNat * d.stride.toNat := by
    rw [Nat.mod_eq_sub_mul_div, Nat.mul_comm]
  rw [hmod, ofNat_sub (Nat.div_mul_le_self ..), ofNat_mul,
    ofNat_div (by omega) d.stride.toNat_lt, ofNat_sub hoffset, ofNat_toNat, ofNat_toNat]
  rfl

/-- The inner dimensions stay below one step of the outer one. -/
theorem position_lt : ∀ {d : Dimension} {ds : List Dimension} {is : List UInt32},
    Layout (d :: ds) → Valid ds is → position ds is < d.stride.toNat
  | d, [], _, hlayout, .nil => by
    rw [show d.stride = 1 from hlayout]
    decide
  | d, e :: ds, i :: is, hlayout, .cons hi his => by
    have hlt : e.offset.toNat + i.toNat < e.offset.toNat + e.n.toNat :=
      Nat.add_lt_add_left (UInt32.lt_iff_toNat_lt.mp hi) _
    calc (e.offset.toNat + i.toNat) * e.stride.toNat + position ds is
        < (e.offset.toNat + i.toNat + 1) * e.stride.toNat := by
          rw [Nat.succ_mul]
          exact Nat.add_lt_add_left (position_lt hlayout.2 his) _
      _ ≤ (e.offset.toNat + e.n.toNat) * e.stride.toNat := Nat.mul_le_mul_right _ hlt
      _ ≤ d.stride.toNat := hlayout.1

/-- `excess` is what the outer dimensions have left over. By induction on the
dimensions: it never vanishes on the way to the last one. -/
theorem indices_position_iff : ∀ {ds : List Dimension} {is : List UInt32} (excess : Nat),
    Layout ds → Valid ds is → position ds is + excess < 2 ^ 32 →
    (indices ds (.ofNat (position ds is + excess)) = is ↔
      excess = 0 ∧ ∀ d ∈ ds, d.offset = 0 ∨ d.stride = 1)
  | d :: ds, i :: is, excess, hlayout, .cons hi his, hfits => by
    have hrest := position_lt hlayout his
    set o := d.offset.toNat with ho
    set s := d.stride.toNat with hs
    have hnone : o * (s - 1) + excess = 0 ↔ excess = 0 ∧ (d.offset = 0 ∨ d.stride = 1) := by
      rw [← UInt32.toNat_inj, ← UInt32.toNat_inj, ← ho, ← hs,
        show (1 : UInt32).toNat = 1 from rfl, show (0 : UInt32).toNat = 0 from rfl,
        Nat.add_eq_zero_iff, Nat.mul_eq_zero, and_comm]
      omega
    have hsplit : position (d :: ds) (i :: is) + excess =
        o + (position ds is + (o * (s - 1) + excess) + s * i.toNat) := by
      have hscaled : o * s = o + o * (s - 1) := by
        rw [Nat.mul_sub_one, Nat.add_sub_cancel' (Nat.le_mul_of_pos_right o (by omega))]
      rw [position, ← ho, ← hs, Nat.add_mul, hscaled, Nat.mul_comm s]
      omega
    rw [hsplit] at hfits ⊢
    rw [indices_cons ds hfits (Nat.le_add_right ..), Nat.add_sub_cancel_left, ← hs,
      Nat.add_mul_div_left _ _ (by omega), Nat.add_mul_mod_self_left, List.cons.injEq,
      List.forall_mem_cons, ← and_assoc, ← hnone]
    generalize o * (s - 1) + excess = left at hfits ⊢
    by_cases hlt : position ds is + left < s
    · rw [Nat.div_eq_of_lt hlt, Nat.mod_eq_of_lt hlt, Nat.zero_add, ofNat_toNat, eq_self, true_and]
      match ds, his with
      | [], .nil =>
        have hstride : s = 1 := congrArg UInt32.toNat hlayout
        exact iff_of_true rfl ⟨by omega, List.forall_mem_nil _⟩
      | _ :: _, his => exact indices_position_iff left hlayout.2 his (by omega)
    · refine iff_of_false (fun h => ?_) fun h => hlt (h.1 ▸ hrest)
      have hdiv := Nat.div_pos (not_lt.mp hlt) (by omega)
      have hle := Nat.le_mul_of_pos_left i.toNat (show 0 < s by omega)
      have hself := Nat.div_le_self (position ds is + left) s
      have hfirst := congrArg UInt32.toNat h.1
      rw [UInt32.toNat_ofNat_of_lt' (by change _ < 2 ^ 32; omega)] at hfirst
      omega

theorem position_injective : ∀ {ds : List Dimension} {is js : List UInt32}, Layout ds → Valid ds is →
    Valid ds js → position ds is = position ds js → is = js
  | d :: ds, i :: is, j :: js, hlayout, .cons hi his, .cons hj hjs, h => by
    have hi' := position_lt hlayout his
    have hj' := position_lt hlayout hjs
    have hdiv := congrArg (· / d.stride.toNat) h
    have hmod := congrArg (· % d.stride.toNat) h
    simp only [position, Nat.add_comm (_ * _), Nat.add_mul_div_right _ _ (Nat.zero_lt_of_lt hi'),
      Nat.div_eq_of_lt, Nat.add_mul_mod_self_right, Nat.mod_eq_of_lt, hi', hj'] at hdiv hmod
    rw [UInt32.toNat_inj.mp (show i.toNat = j.toNat by omega)]
    match ds, his, hjs with
    | [], .nil, .nil => rfl
    | _ :: _, his, hjs => rw [position_injective hlayout.2 his hjs hmod]

/-- `indices` inverts `index` exactly where the offsets are not scaled. -/
theorem indices_index_iff {ds : List Dimension} {is : List UInt32} (hlayout : Layout ds)
    (hvalid : Valid ds is) (hfits : position ds is < 2 ^ 32) :
    (indices ds (index ds is) = is ↔ ∀ d ∈ ds, d.offset = 0 ∨ d.stride = 1) ∧
      ∀ js, Valid ds js → position ds js < 2 ^ 32 → index ds is = index ds js → is = js := by
  rw [index_eq]
  refine ⟨(indices_position_iff 0 hlayout hvalid hfits).trans (and_iff_right rfl), ?_⟩
  intro js hjs hfits' h
  rw [index_eq] at h
  have hpos := congrArg UInt32.toNat h
  rw [UInt32.toNat_ofNat_of_lt' hfits, UInt32.toNat_ofNat_of_lt' hfits'] at hpos
  exact position_injective hlayout hvalid hjs hpos

/-- Two by two elements behind an unused row. -/
theorem exists_indices_ne : ∃ ds is, Layout ds ∧ Valid ds is ∧ position ds is < 2 ^ 32 ∧
    index ds is = 2 ∧ indices ds 2 = [0, 1] ∧ is = [0, 0] :=
  ⟨[⟨2, 2, 1⟩, ⟨2, 1, 0⟩], _, ⟨by decide, rfl⟩, .cons (by decide) (.cons (by decide) .nil),
    by decide, by decide, by decide, rfl⟩

theorem indices_index_rows :
    indices [⟨2, 2, 0⟩, ⟨2, 1, 0⟩] (index [⟨2, 2, 0⟩, ⟨2, 1, 0⟩] [1, 1]) = [1, 1] := by
  have hlayout : Layout [⟨2, 2, 0⟩, ⟨2, 1, 0⟩] := ⟨by decide, rfl⟩
  exact (indices_index_iff hlayout (.cons (by decide) (.cons (by decide) .nil)) (by decide)).1.mpr
    (by simp)

end OpenCmw.MultiArray
