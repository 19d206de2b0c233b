import Mathlib.Algebra.Order.Field.Power
import Mathlib.Algebra.Order.Ring.Abs
import Mathlib.Tactic.Ring
import Mathlib.Tactic.Positivity

/-!
# Binary floating-point formats

A number in a binary interchange format is a pattern of a sign, an exponent with a bias and a fraction.
Patterns are natural numbers here, read from their lowest bits on.

* `Format` — the widths of the fields; `fraction`, `biased`, `negative` — the fields;
* `significand`, `scale`, `value` — what a finite pattern stands for;
* `Normal`, `Denormal` — the two kinds of numbers other than zero, with `value_ne_zero_iff`;
* `abs_value_mem` — the binary exponent of a value.
-/

namespace Risu.Lib

structure Format where
  fractionBits : ℕ
  exponentBits : ℕ

/-- Double precision. -/
def binary64 : Format := ⟨52, 11⟩

namespace Format

variable (F : Format)

def fraction (n : ℕ) : ℕ := n % 2 ^ F.fractionBits

def biased (n : ℕ) : ℕ := n / 2 ^ F.fractionBits % 2 ^ F.exponentBits

def negative (n : ℕ) : Bool := n.testBit (F.fractionBits + F.exponentBits)

def bias : ℤ := 2 ^ (F.exponentBits - 1) - 1

/-- The fraction with the hidden bit; the exponent zero has none. -/
def significand (n : ℕ) : ℕ :=
  if F.biased n = 0 then F.fraction n else 2 ^ F.fractionBits + F.fraction n

/-- The exponent of the last bit of the significand; the exponents zero and one have the same. -/
def scale (n : ℕ) : ℤ := (if F.biased n = 0 then 1 else F.biased n : ℕ) - F.bias - F.fractionBits

def value (n : ℕ) : ℚ := (if F.negative n then -1 else 1) * (F.significand n * 2 ^ F.scale n)

/-- Neither infinite nor a NaN. -/
def Finite (n : ℕ) : Prop := F.biased n ≠ 2 ^ F.exponentBits - 1

def Normal (n : ℕ) : Prop := F.biased n ≠ 0 ∧ F.Finite n

/-- A denormalized number other than zero. -/
def Denormal (n : ℕ) : Prop := F.biased n = 0 ∧ F.fraction n ≠ 0

instance (n : ℕ) : Decidable (F.Finite n) := inferInstanceAs (Decidable (_ ≠ _))

instance (n : ℕ) : Decidable (F.Normal n) := inferInstanceAs (Decidable (_ ∧ _))

instance (n : ℕ) : Decidable (F.Denormal n) := inferInstanceAs (Decidable (_ ∧ _))

variable {F : Format} {n : ℕ}

theorem fraction_lt : F.fraction n < 2 ^ F.fractionBits := Nat.mod_lt n (Nat.two_pow_pos _)

theorem abs_value : |F.value n| = F.significand n * 2 ^ F.scale n := by
  have hpos : (0 : ℚ) ≤ F.significand n * 2 ^ F.scale n := by positivity
  rw [value, abs_mul, abs_of_nonneg hpos]
  split_ifs
  · rw [abs_neg, abs_one, one_mul]
  · rw [abs_one, one_mul]

theorem value_ne_zero : F.value n ≠ 0 ↔ F.significand n ≠ 0 := by
  have hscale : (2 : ℚ) ^ F.scale n ≠ 0 := zpow_ne_zero _ two_ne_zero
  rw [← abs_ne_zero, abs_value, mul_ne_zero_iff, Nat.cast_ne_zero]
  exact and_iff_left hscale

theorem value_ne_zero_iff (hfin : F.Finite n) : F.value n ≠ 0 ↔ F.Normal n ∨ F.Denormal n := by
  rw [value_ne_zero, significand]
  split_ifs with h
  · exact ⟨fun hne => .inr ⟨h, hne⟩, fun hor => hor.elim (fun hn => absurd h hn.1) (·.2)⟩
  · exact ⟨fun _ => .inl ⟨h, hfin⟩, fun _ => (Nat.add_pos_left (Nat.two_pow_pos _) _).ne'⟩

/-- The place of the first bit gives the binary exponent of the value. -/
theorem abs_value_mem {k : ℕ} (hlow : 2 ^ k ≤ F.significand n) (hhigh : F.significand n < 2 ^ (k + 1)) :
    2 ^ (F.scale n + k) ≤ |F.value n| ∧ |F.value n| < 2 ^ (F.scale n + k + 1) := by
  have hscale : (0 : ℚ) < 2 ^ F.scale n := zpow_pos two_pos _
  have hsplit (j : ℕ) : (2 : ℚ) ^ (F.scale n + j) = (2 ^ j : ℕ) * 2 ^ F.scale n := by
    rw [zpow_add₀ two_ne_zero, zpow_natCast, mul_comm, Nat.cast_pow, Nat.cast_ofNat]
  rw [abs_value, add_assoc, ← Nat.cast_one, ← Nat.cast_add, hsplit, hsplit]
  exact ⟨mul_le_mul_of_nonneg_right (Nat.cast_le.mpr hlow) hscale.le,
    mul_lt_mul_of_pos_right (Nat.cast_lt.mpr hhigh) hscale⟩

end Format

end Risu.Lib
