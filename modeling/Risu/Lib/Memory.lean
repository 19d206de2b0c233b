import Risu.Lib.ByteOrder
import Mathlib.Data.List.Nodup
import Mathlib.Logic.Function.Basic
import Mathlib.Tactic.Common

/-!
# Memory and arrays

Memory is a function from addresses of `n` bits to bytes, and addresses wrap around.  An array is a
function from its indices.

* `load`, `store` — consecutive bytes;
* `load_congr` — bytes at different addresses of two memories;
* `load_store` — what was stored is loaded;
* `store_store` — two adjacent stores are one;
* `scatter` — a loop of assignments `dst[i] = src[k]`, as the list of its pairs of indices;
* `scatter_of_mem`, `scatter_of_not_mem` — what it leaves at an index.
-/

namespace Risu.Lib

section memory

variable {n : ℕ}

/-- The bytes from an address on. -/
def load (m : BitVec n → Byte) (a : BitVec n) (len : ℕ) : List Byte :=
  (List.range len).map fun i => m (a + BitVec.ofNat n i)

def store (m : BitVec n → Byte) (a : BitVec n) (bs : List Byte) : BitVec n → Byte :=
  fun x => bs[(x - a).toNat]?.getD (m x)

@[simp] theorem length_load (m : BitVec n → Byte) (a : BitVec n) (len : ℕ) :
    (load m a len).length = len := by
  simp [load]

theorem load_add (m : BitVec n → Byte) (a : BitVec n) (k len : ℕ) :
    load m a (k + len) = load m a k ++ load m (a + BitVec.ofNat n k) len := by
  rw [load, List.range_add, List.map_append, List.map_map]
  refine congrArg _ (List.map_congr_left fun i _ => ?_)
  rw [Function.comp_apply, BitVec.ofNat_add, BitVec.add_assoc]

/-- Memories that are equal from two addresses on have the same bytes there. -/
theorem load_congr {m m' : BitVec n → Byte} {a a' : BitVec n} (h : ∀ x, m (a + x) = m' (a' + x))
    (len : ℕ) : load m a len = load m' a' len :=
  List.map_congr_left fun i _ => h (BitVec.ofNat n i)

theorem add_ofNat_sub_toNat (a : BitVec n) {i : ℕ} (h : i < 2 ^ n) :
    (a + BitVec.ofNat n i - a).toNat = i := by
  rw [BitVec.add_comm, BitVec.add_sub_cancel, BitVec.toNat_ofNat, Nat.mod_eq_of_lt h]

/-- What was stored is loaded. -/
theorem load_store (m : BitVec n → Byte) (a : BitVec n) {bs : List Byte} (h : bs.length ≤ 2 ^ n) :
    load (store m a bs) a bs.length = bs := by
  apply List.ext_getElem
  · exact length_load _ _ _
  · intro i hi hi'
    have hget := add_ofNat_sub_toNat a (show i < 2 ^ n by omega)
    simp only [load, store, List.getElem_map, List.getElem_range]
    rw [hget, List.getElem?_eq_getElem hi', Option.getD_some]

/-- The distance to an address further on. -/
theorem sub_add_ofNat_toNat (x a : BitVec n) {k : ℕ} (h : k ≤ (x - a).toNat) :
    (x - (a + BitVec.ofNat n k)).toNat = (x - a).toNat - k := by
  have hlt := (x - a).isLt
  have hk : (BitVec.ofNat n k).toNat = k := by
    rw [BitVec.toNat_ofNat, Nat.mod_eq_of_lt (by omega)]
  rw [← BitVec.sub_sub, BitVec.toNat_sub_of_le (by rw [BitVec.le_def, hk]; exact h), hk]

/-- The distance around to an address that lies before. -/
theorem sub_add_ofNat_toNat_of_lt (x a : BitVec n) {k : ℕ} (h : (x - a).toNat < k) (hk : k < 2 ^ n) :
    (x - (a + BitVec.ofNat n k)).toNat = 2 ^ n - k + (x - a).toNat := by
  have hkn : (BitVec.ofNat n k).toNat = k := by rw [BitVec.toNat_ofNat, Nat.mod_eq_of_lt hk]
  rw [← BitVec.sub_sub, BitVec.toNat_sub, hkn, Nat.mod_eq_of_lt (by omega)]

/-- Two adjacent stores are one. -/
theorem store_store (m : BitVec n → Byte) (a : BitVec n) {bs cs : List Byte}
    (h : bs.length + cs.length < 2 ^ n) :
    store (store m a bs) (a + BitVec.ofNat n bs.length) cs = store m a (bs ++ cs) := by
  funext x
  simp only [store]
  by_cases hx : bs.length ≤ (x - a).toNat
  · rw [sub_add_ofNat_toNat x a hx, List.getElem?_append_right hx,
      List.getElem?_eq_none (l := bs) hx, Option.getD_none]
  · rw [sub_add_ofNat_toNat_of_lt x a (by omega) (by omega), List.getElem?_append_left (by omega),
      List.getElem?_eq_none (by omega), Option.getD_none]

end memory

/-! ### Copying by index -/

section scatter

variable {ι κ α : Type} [DecidableEq ι] {src : κ → α}

/-- The assignments, one after the other. -/
def scatter (src : κ → α) (moves : List (ι × κ)) (dst : ι → α) : ι → α :=
  moves.foldl (fun d m => Function.update d m.1 (src m.2)) dst

theorem scatter_of_not_mem {moves : List (ι × κ)} {i : ι} (h : i ∉ moves.map Prod.fst) (dst : ι → α) :
    scatter src moves dst i = dst i := by
  induction moves generalizing dst with
  | nil => rfl
  | cons m moves ih =>
    rw [List.map_cons, List.mem_cons, not_or] at h
    show scatter src moves (Function.update dst m.1 (src m.2)) i = dst i
    rw [ih h.2, Function.update_of_ne h.1]

/-- An index that is assigned once. -/
theorem scatter_of_mem {moves : List (ι × κ)} (hnodup : (moves.map Prod.fst).Nodup) {i : ι} {k : κ}
    (h : (i, k) ∈ moves) (dst : ι → α) : scatter src moves dst i = src k := by
  induction moves generalizing dst with
  | nil => cases h
  | cons m moves ih =>
    rw [List.map_cons, List.nodup_cons] at hnodup
    show scatter src moves (Function.update dst m.1 (src m.2)) i = src k
    rcases List.mem_cons.mp h with rfl | h
    · rw [scatter_of_not_mem hnodup.1, Function.update_self]
    · exact ih hnodup.2 h _

end scatter

end Risu.Lib
