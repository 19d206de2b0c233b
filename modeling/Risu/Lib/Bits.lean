import Mathlib.Data.Nat.Notation

/-!
# Bitwise inclusion

`BitSubset x y` says that every bit of `x` is a bit of `y`.  The operations that build masks are
monotone for it (`and`, `or`, `shiftLeft`, `ushiftRight`), and the two ways a mask is used are
monotone or antitone (`BitSubset.and_ne_zero`, `BitSubset.and_not_ne_zero`, `BitSubset.and_eq`).
-/

namespace Risu.Lib

variable {n m : ℕ}

def BitSubset (x y : BitVec n) : Prop := ∀ i, x.getLsbD i = true → y.getLsbD i = true

theorem BitSubset.of_and_eq {x y : BitVec n} (h : x &&& y = x) : BitSubset x y := by
  intro i hi
  rw [← h, BitVec.getLsbD_and, Bool.and_eq_true] at hi
  exact hi.2

theorem BitSubset.and_eq_left {x y : BitVec n} (h : BitSubset x y) : x &&& y = x := by
  apply BitVec.eq_of_getLsbD_eq
  intro i _
  rw [BitVec.getLsbD_and]
  cases hx : x.getLsbD i with
  | false => rfl
  | true => simp [h i hx]

namespace BitSubset

variable {x y x' y' : BitVec n}

theorem refl (x : BitVec n) : BitSubset x x := fun _ h => h

theorem and (h : BitSubset x y) (h' : BitSubset x' y') : BitSubset (x &&& x') (y &&& y') := by
  intro i hi
  simp only [BitVec.getLsbD_and, Bool.and_eq_true] at hi ⊢
  exact ⟨h i hi.1, h' i hi.2⟩

theorem or (h : BitSubset x y) (h' : BitSubset x' y') : BitSubset (x ||| x') (y ||| y') := by
  intro i hi
  simp only [BitVec.getLsbD_or, Bool.or_eq_true] at hi ⊢
  exact hi.imp (h i) (h' i)

theorem shiftLeft (h : BitSubset x y) (k : ℕ) : BitSubset (x <<< k) (y <<< k) := by
  intro i hi
  simp only [BitVec.getLsbD_shiftLeft, Bool.and_eq_true] at hi ⊢
  exact ⟨hi.1, h _ hi.2⟩

theorem ushiftRight (h : BitSubset x y) (k : ℕ) : BitSubset (x >>> k) (y >>> k) := by
  intro i hi
  simp only [BitVec.getLsbD_ushiftRight] at hi ⊢
  exact h _ hi

theorem setWidth (h : BitSubset x y) (m : ℕ) : BitSubset (x.setWidth m) (y.setWidth m) := by
  intro i hi
  simp only [BitVec.getLsbD_setWidth, Bool.and_eq_true] at hi ⊢
  exact ⟨hi.1, h _ hi.2⟩

/-- A bit found in the smaller set is found in the larger one. -/
theorem and_ne_zero (h : BitSubset x y) {b : BitVec n} (hx : x &&& b ≠ 0) : y &&& b ≠ 0 := by
  intro hy
  apply hx
  rw [← h.and_eq_left, BitVec.and_assoc, hy]
  exact BitVec.and_zero

/-- A bit missing from the larger set is missing from the smaller one. -/
theorem and_not_ne_zero (h : BitSubset x y) {b : BitVec n} (hy : b &&& ~~~y ≠ 0) :
    b &&& ~~~x ≠ 0 := by
  have hnot : BitSubset (~~~y) (~~~x) := by
    intro i hi
    simp only [BitVec.getLsbD_not, Bool.and_eq_true, Bool.not_eq_true', decide_eq_true_eq] at hi ⊢
    refine ⟨hi.1, ?_⟩
    cases hx : x.getLsbD i with
    | false => rfl
    | true => rw [h i hx] at hi; simp at hi
  intro hx
  apply hy
  rw [BitVec.and_comm] at hx ⊢
  rw [← hnot.and_eq_left, BitVec.and_assoc, hx]
  exact BitVec.and_zero

/-- What agrees under the larger set agrees under the smaller one. -/
theorem and_eq (h : BitSubset x y) {u v : BitVec n} (huv : u &&& y = v &&& y) :
    u &&& x = v &&& x := by
  rw [← h.and_eq_left, BitVec.and_comm x y, ← BitVec.and_assoc, huv, BitVec.and_assoc]

end BitSubset

end Risu.Lib
