import Mathlib.Algebra.GroupWithZero.Nat
import Mathlib.Algebra.Order.Group.Nat
import Mathlib.Order.Interval.Finset.Nat
import Mathlib.Tactic.Common

/-!
# Fields of a machine word

A field of `len` bits at position `pos` of a word is read by `getField` and written by `putField`, both
as shifts and masks.

* `bitCount` — the number of bits that are set;
* `getLsbD_ones`, `getLsbD_getField`, `getLsbD_putField` — the bits of a mask, of what is read and of
  what is written;
* `getField_putField`, `getField_putField_of_disjoint`, `putField_putField`, `putField_comm` — reading
  and writing are a lens for each field, and disjoint fields do not interfere;
* `putField_and_of_disjoint` — bits outside the field are kept;
* `placed` — consecutive fields from the most significant bit on; they are disjoint
  (`placed_pairwise`) and leave no gap (`placed_cover`);
* `accumulate`, `getLsbD_accumulate` — a word built by shifting, and its bits;
* `extractLsb'_shiftLeft_self`, `extractLsb'_shiftLeft_above`, `extractLsb'_shiftLeft_below` — what is
  read of a word that is the `or` of shifted parts; `and_ones` — a mask as a part;
* `toNat_cut_sub` — an address whose low bits were cut off.
-/

namespace Risu.Lib

variable {n : ℕ}

/-- The lowest `len` bits. -/
def ones (n len : ℕ) : BitVec n := BitVec.ofNat n (2 ^ len - 1)

@[simp] theorem getLsbD_ones (len i : ℕ) :
    (ones n len).getLsbD i = (decide (i < n) && decide (i < len)) := by
  rw [ones, BitVec.getLsbD_ofNat, Nat.testBit_two_pow_sub_one]

theorem ones_zero : ones n 0 = 0 := by
  simp [ones]

/-- Bit `i` is one of the field's. -/
def InField (pos len i : ℕ) : Prop := pos ≤ i ∧ i < pos + len

instance (pos len i : ℕ) : Decidable (InField pos len i) :=
  inferInstanceAs (Decidable (_ ∧ _))

theorem getLsbD_ones_shiftLeft (pos len i : ℕ) :
    (ones n len <<< pos).getLsbD i = (decide (i < n) && decide (InField pos len i)) := by
  rw [BitVec.getLsbD_shiftLeft, getLsbD_ones]
  by_cases hi : i < n
  · by_cases hpos : i < pos
    · have hout : ¬ InField pos len i := fun h => by have := h.1; omega
      simp [hi, hpos, hout]
    · have hin : InField pos len i ↔ i - pos < len := by unfold InField; omega
      have hlt : i - pos < n := by omega
      simp [hi, hpos, hin, hlt]
  · simp [hi]

def bitCount (x : BitVec n) : ℕ := ((Finset.range n).filter fun i => x.getLsbD i = true).card

theorem bitCount_ones_shiftLeft {pos len : ℕ} (h : pos + len ≤ n) :
    bitCount (ones n len <<< pos) = len := by
  have hbits : ((Finset.range n).filter fun i => (ones n len <<< pos).getLsbD i = true) =
      Finset.Ico pos (pos + len) := by
    ext i
    rw [Finset.mem_filter, Finset.mem_range, Finset.mem_Ico, getLsbD_ones_shiftLeft,
      Bool.and_eq_true, decide_eq_true_eq, decide_eq_true_eq]
    unfold InField
    omega
  rw [bitCount, hbits, Nat.card_Ico]
  omega

def getField (pos len : ℕ) (x : BitVec n) : BitVec n := (x >>> pos) &&& ones n len

def putField (pos len : ℕ) (x v : BitVec n) : BitVec n :=
  (x &&& ~~~(ones n len <<< pos)) ||| ((v &&& ones n len) <<< pos)

theorem getLsbD_getField (pos len : ℕ) (x : BitVec n) (i : ℕ) :
    (getField pos len x).getLsbD i = (decide (i < len) && x.getLsbD (pos + i)) := by
  rw [getField, BitVec.getLsbD_and, BitVec.getLsbD_ushiftRight, getLsbD_ones]
  by_cases hi : i < n
  · simp [hi, Bool.and_comm]
  · have hout : x.getLsbD (pos + i) = false := BitVec.getLsbD_of_ge x _ (by omega)
    simp [hout]

theorem getLsbD_putField (pos len : ℕ) (x v : BitVec n) {i : ℕ} (hi : i < n) :
    (putField pos len x v).getLsbD i =
      if InField pos len i then v.getLsbD (i - pos) else x.getLsbD i := by
  rw [putField, BitVec.getLsbD_or, BitVec.getLsbD_and, BitVec.getLsbD_not,
    getLsbD_ones_shiftLeft, BitVec.getLsbD_shiftLeft, BitVec.getLsbD_and, getLsbD_ones]
  split_ifs with hin
  · obtain ⟨hpos, hlen⟩ := hin
    have hnot : ¬ i < pos := by omega
    have hlt : i - pos < n := by omega
    have hfld : i - pos < len := by omega
    simp [hi, hnot, hlt, hfld, InField, hpos, hlen]
  · by_cases hpos : i < pos
    · simp [hi, hin, hpos]
    · have hge : ¬ i - pos < len := fun h => hin ⟨by omega, by omega⟩
      simp [hi, hin, hge]

section lens

variable {pos len pos' len' : ℕ}

/-- Two fields have no bit in common. -/
def DisjointFields (pos len pos' len' : ℕ) : Prop := ∀ i, InField pos len i → ¬ InField pos' len' i

theorem DisjointFields.symm (h : DisjointFields pos len pos' len') :
    DisjointFields pos' len' pos len :=
  fun i hi' hi => h i hi hi'

theorem getField_putField (h : pos + len ≤ n) (x v : BitVec n) :
    getField pos len (putField pos len x v) = v &&& ones n len := by
  apply BitVec.eq_of_getLsbD_eq
  intro i hi
  rw [getLsbD_getField, BitVec.getLsbD_and, getLsbD_ones]
  by_cases hlen : i < len
  · have hin : InField pos len (pos + i) := ⟨by omega, by omega⟩
    rw [getLsbD_putField pos len x v (by omega), if_pos hin]
    simp [hlen, hi]
  · simp [hlen]

theorem getField_putField_of_disjoint (hd : DisjointFields pos len pos' len') (x v : BitVec n) :
    getField pos' len' (putField pos len x v) = getField pos' len' x := by
  apply BitVec.eq_of_getLsbD_eq
  intro i hi
  rw [getLsbD_getField, getLsbD_getField]
  by_cases hlen : i < len'
  · have hin : ¬ InField pos len (pos' + i) := hd.symm _ ⟨by omega, by omega⟩
    by_cases hn : pos' + i < n
    · rw [getLsbD_putField pos len x v hn, if_neg hin]
    · rw [BitVec.getLsbD_of_ge _ _ (by omega), BitVec.getLsbD_of_ge _ _ (by omega)]
  · simp [hlen]

theorem putField_putField (x u v : BitVec n) :
    putField pos len (putField pos len x u) v = putField pos len x v := by
  apply BitVec.eq_of_getLsbD_eq
  intro i hi
  rw [getLsbD_putField pos len _ v hi, getLsbD_putField pos len _ u hi,
    getLsbD_putField pos len x v hi]
  split_ifs <;> rfl

theorem putField_comm (hd : DisjointFields pos len pos' len') (x u v : BitVec n) :
    putField pos len (putField pos' len' x v) u = putField pos' len' (putField pos len x u) v := by
  apply BitVec.eq_of_getLsbD_eq
  intro i hi
  simp only [getLsbD_putField _ _ _ _ hi]
  by_cases hin : InField pos len i
  · simp [hin, hd i hin]
  · simp [hin]

/-- A mask that meets no bit of the field sees no change. -/
theorem putField_and_of_disjoint {mask : BitVec n}
    (hd : ∀ i, InField pos len i → mask.getLsbD i = false) (x v : BitVec n) :
    putField pos len x v &&& mask = x &&& mask := by
  apply BitVec.eq_of_getLsbD_eq
  intro i hi
  rw [BitVec.getLsbD_and, BitVec.getLsbD_and, getLsbD_putField pos len x v hi]
  split_ifs with hin
  · simp [hd i hin]
  · rfl

end lens

/-! ### Consecutive fields -/

section placed

variable {α : Type} {len : α → ℕ}

def totalLen (len : α → ℕ) (as : List α) : ℕ := (as.map len).sum

@[simp] theorem totalLen_nil : totalLen len [] = 0 := rfl

@[simp] theorem totalLen_cons (a : α) (as : List α) :
    totalLen len (a :: as) = len a + totalLen len as := by
  simp [totalLen]

/-- Consecutive fields, the first one highest, each with the position of its lowest bit. -/
def placed (len : α → ℕ) : List α → List (α × ℕ)
  | [] => []
  | a :: as => (a, totalLen len as) :: placed len as

theorem placed_bound {as : List α} {p : α × ℕ} (h : p ∈ placed len as) :
    p.2 + len p.1 ≤ totalLen len as := by
  induction as with
  | nil => cases h
  | cons a as ih =>
    rw [totalLen_cons]
    rcases List.mem_cons.mp h with rfl | h
    · show totalLen len as + len a ≤ _
      omega
    · have := ih h
      omega

/-- A field lies above those that follow it. -/
theorem placed_pairwise (as : List α) :
    (placed len as).Pairwise fun p q => q.2 + len q.1 ≤ p.2 := by
  induction as with
  | nil => exact .nil
  | cons a as ih => exact List.pairwise_cons.mpr ⟨fun q hq => placed_bound hq, ih⟩

/-- Every bit belongs to one of the fields. -/
theorem placed_cover {as : List α} {i : ℕ} (h : i < totalLen len as) :
    ∃ p ∈ placed len as, InField p.2 (len p.1) i := by
  induction as with
  | nil => simp at h
  | cons a as ih =>
    rw [totalLen_cons] at h
    by_cases hi : i < totalLen len as
    · obtain ⟨p, hp, hin⟩ := ih hi
      exact ⟨p, List.mem_cons_of_mem _ hp, hin⟩
    · exact ⟨_, List.mem_cons_self, by show totalLen len as ≤ i; omega,
        by show i < totalLen len as + len a; omega⟩

/-- A bit belongs to one of the fields only. -/
theorem placed_unique {as : List α} {p q : α × ℕ} {i : ℕ} (hp : p ∈ placed len as)
    (hq : q ∈ placed len as) (hpi : InField p.2 (len p.1) i) (hqi : InField q.2 (len q.1) i) :
    p = q := by
  induction as with
  | nil => cases hp
  | cons a as ih =>
    unfold InField at hpi hqi
    rcases List.mem_cons.mp hp with rfl | hp
    · rcases List.mem_cons.mp hq with rfl | hq
      · rfl
      · have := placed_bound hq
        simp only at hpi
        omega
    · rcases List.mem_cons.mp hq with rfl | hq
      · have := placed_bound hp
        simp only at hqi
        omega
      · exact ih hp hq

/-- A word into which one value after the other is shifted. -/
def accumulate (len : α → ℕ) (f : α → BitVec n) (x : BitVec n) (as : List α) : BitVec n :=
  as.foldl (fun x a => (x <<< len a) ||| f a) x

/-- Each value ends where its field lies, and may reach beyond it. -/
theorem getLsbD_accumulate (f : α → BitVec n) (x : BitVec n) (as : List α) {i : ℕ} (hi : i < n) :
    (accumulate len f x as).getLsbD i = true ↔
      totalLen len as ≤ i ∧ x.getLsbD (i - totalLen len as) = true ∨
        ∃ p ∈ placed len as, p.2 ≤ i ∧ (f p.1).getLsbD (i - p.2) = true := by
  induction as generalizing x with
  | nil => simp [accumulate, placed]
  | cons a as ih =>
    have hcons : accumulate len f x (a :: as) = accumulate len f ((x <<< len a) ||| f a) as := rfl
    have hsub : i - (len a + totalLen len as) = i - totalLen len as - len a := by omega
    rw [hcons, ih, totalLen_cons, placed, hsub]
    simp only [List.mem_cons, exists_eq_or_imp, BitVec.getLsbD_or, BitVec.getLsbD_shiftLeft,
      Bool.or_eq_true, Bool.and_eq_true, decide_eq_true_eq, Bool.not_eq_true',
      decide_eq_false_iff_not]
    constructor
    · rintro (⟨hle, ⟨⟨-, hlen⟩, hx⟩ | ha⟩ | hrest)
      · exact .inl ⟨by omega, hx⟩
      · exact .inr (.inl ⟨hle, ha⟩)
      · exact .inr (.inr hrest)
    · rintro (⟨hle, hx⟩ | ⟨hle, ha⟩ | hrest)
      · exact .inl ⟨by omega, .inl ⟨⟨by omega, by omega⟩, hx⟩⟩
      · exact .inl ⟨hle, .inr ha⟩
      · exact .inr hrest

end placed

/-! ### Words put together from parts -/

section parts

variable {w pos pos' len' : ℕ}

@[simp] theorem extractLsb'_shiftLeft_self (v : BitVec w) (h : pos + w ≤ n) :
    (v.setWidth n <<< pos).extractLsb' pos w = v := by
  apply BitVec.eq_of_getLsbD_eq
  intro i hi
  have hn : pos + i < n := by omega
  simp [hi, hn]

@[simp] theorem extractLsb'_shiftLeft_above (v : BitVec w) (h : pos + w ≤ pos') :
    (v.setWidth n <<< pos).extractLsb' pos' len' = BitVec.ofNat _ 0 := by
  apply BitVec.eq_of_getLsbD_eq
  intro i hi
  have hout : v.getLsbD (pos' + i - pos) = false := BitVec.getLsbD_of_ge v _ (by omega)
  simp [hout]

@[simp] theorem extractLsb'_shiftLeft_below (x : BitVec n) (h : pos' + len' ≤ pos) :
    (x <<< pos).extractLsb' pos' len' = BitVec.ofNat _ 0 := by
  apply BitVec.eq_of_getLsbD_eq
  intro i hi
  have hlt : pos' + i < pos := by omega
  simp [hlt]

@[simp] theorem extractLsb'_above (v : BitVec w) (h : w ≤ pos') :
    v.extractLsb' pos' len' = BitVec.ofNat _ 0 := by
  apply BitVec.eq_of_getLsbD_eq
  intro i hi
  have hout : v.getLsbD (pos' + i) = false := BitVec.getLsbD_of_ge v _ (by omega)
  simp [hout]

/-- Parts of a word that is cut off above them. -/
@[simp] theorem extractLsb'_setWidth (x : BitVec w) (h : pos' + len' ≤ n) :
    (x.setWidth n).extractLsb' pos' len' = x.extractLsb' pos' len' :=
  BitVec.extractLsb'_setWidth_of_le h

/-- A mask of the lowest bits leaves them as an operand. -/
theorem and_ones (x : BitVec n) (len : ℕ) : x &&& ones n len = (x.setWidth len).setWidth n := by
  apply BitVec.eq_of_getLsbD_eq
  intro i hi
  rw [BitVec.getLsbD_and, getLsbD_ones, BitVec.getLsbD_setWidth, BitVec.getLsbD_setWidth]
  simp [hi, Bool.and_comm]

/-- A mask of other bits, moved down. -/
theorem and_ones_shiftRight (x : BitVec n) (h : pos + len' ≤ n) :
    (x &&& (ones n len' <<< pos)) >>> pos = (x.extractLsb' pos len').setWidth n := by
  apply BitVec.eq_of_getLsbD_eq
  intro i hi
  rw [BitVec.getLsbD_ushiftRight, BitVec.getLsbD_and, getLsbD_ones_shiftLeft,
    BitVec.getLsbD_setWidth, BitVec.getLsbD_extractLsb']
  by_cases hlen : i < len'
  · have hin : InField pos len' (pos + i) := ⟨by omega, by omega⟩
    have hlt : pos + i < n := by omega
    simp [hi, hlen, hin, hlt]
  · have hout : ¬ InField pos len' (pos + i) := fun h => by have := h.2; omega
    simp [hlen, hout]

theorem and_ffff (x : BitVec 64) : x &&& 0xffff#64 = (x.setWidth 16).setWidth 64 :=
  and_ones x 16

end parts

/-! ### Masks on addresses -/

/-- Cutting off bits takes away their value. -/
theorem and_eq_sub (x m : BitVec n) : x &&& m = x - (x &&& ~~~m) := by
  have hdisjoint : (x &&& m) &&& (x &&& ~~~m) = 0#n := by
    ext i hi
    cases hx : x[i] <;> simp [hx]
  have hparts : (x &&& m) ||| (x &&& ~~~m) = x := by
    ext i hi
    cases hx : x[i] <;> simp [hx]
  rw [eq_comm, BitVec.sub_eq_iff_eq_add, BitVec.add_eq_or_of_and_eq_zero _ _ hdisjoint, hparts]

/-- An address behind another, after some of its low bits were cut off. -/
theorem toNat_cut_sub (base m : BitVec n) {c r : ℕ} (hc : c < 2 ^ n) (hr : (~~~m).toNat ≤ r)
    (hrc : r ≤ c) : ∃ d ≤ r, (((base + BitVec.ofNat n c) &&& m) - base).toNat = c - d := by
  set x := base + BitVec.ofNat n c
  set d := (x &&& ~~~m).toNat with hd
  have hdr : d ≤ r := by
    rw [hd, BitVec.toNat_and]
    exact Nat.and_le_right.trans hr
  refine ⟨d, hdr, ?_⟩
  have hsub : x - (x &&& ~~~m) - base = BitVec.ofNat n (c - d) := by
    rw [BitVec.sub_eq_iff_eq_add, BitVec.sub_eq_iff_eq_add]
    have hd' : x &&& ~~~m = BitVec.ofNat n d := by rw [hd, BitVec.ofNat_toNat, BitVec.setWidth_eq]
    rw [hd', BitVec.add_assoc, BitVec.add_comm base, ← BitVec.add_assoc, ← BitVec.ofNat_add,
      Nat.sub_add_cancel (hdr.trans hrc), BitVec.add_comm]
  rw [and_eq_sub, hsub, BitVec.toNat_ofNat, Nat.mod_eq_of_lt (by omega)]

/-- The same address by its distance. -/
theorem cut_eq_add (base m : BitVec n) {c r : ℕ} (hc : c < 2 ^ n) (hr : (~~~m).toNat ≤ r)
    (hrc : r ≤ c) : ∃ d ≤ r, (base + BitVec.ofNat n c) &&& m = base + BitVec.ofNat n (c - d) := by
  obtain ⟨d, hd, hoff⟩ := toNat_cut_sub base m hc hr hrc
  refine ⟨d, hd, ?_⟩
  rw [← hoff, BitVec.ofNat_toNat, BitVec.setWidth_eq, BitVec.add_comm base (_ - base),
    BitVec.sub_add_cancel]

/-- What a mask leaves is aligned. -/
theorem dvd_toNat_and {k : ℕ} (x m : BitVec n) (h : m.toNat % 2 ^ k = 0) : 2 ^ k ∣ (x &&& m).toNat := by
  rw [BitVec.toNat_and]
  apply Nat.dvd_of_mod_eq_zero
  rw [← Nat.and_two_pow_sub_one_eq_mod, Nat.and_assoc, Nat.and_two_pow_sub_one_eq_mod, h, Nat.and_zero]

/-- Addresses at a distance. -/
theorem dvd_toNat_add {k c : ℕ} (hk : k ≤ n) (x : BitVec n) :
    2 ^ k ∣ (x + BitVec.ofNat n c).toNat ↔ 2 ^ k ∣ x.toNat + c := by
  have hdvd : 2 ^ k ∣ 2 ^ n := pow_dvd_pow 2 hk
  rw [BitVec.toNat_add, BitVec.toNat_ofNat, Nat.add_mod_mod, Nat.dvd_mod_iff hdvd]

end Risu.Lib
