import Mathlib.Data.Nat.Notation
import Mathlib.Data.Int.Notation
import Mathlib.Tactic.Ring

/-!
# Double-precision bit patterns (`risu_reginfo_ppc64.c`)

The comparator looks at floating-point registers through their bit patterns only.  The helpers are
those of the source, on `BitVec 64`; the two comparisons it makes on `double` values, against
`FLT_MIN` and `FLT_MAX`, are comparisons of bit patterns below the sign.

* `normLoop` — the loop of `exponent` and `normalize`, with `normLoop_le` showing that its fuel is
  never the reason for stopping;
* `exponent`, `mantissa`, `normalize`, `abs64`.
-/

namespace Risu.Ppc64

/-- `n & ~(1LL<<63)`. -/
def magnitude (n : BitVec 64) : BitVec 64 := n &&& ~~~(1#64 <<< 63)

def denormalized (n : BitVec 64) : Bool := (n >>> 52) &&& 0x7ff == 0 && magnitude n != 0

def zero (n : BitVec 64) : Bool := magnitude n == 0

def signz (n : BitVec 64) : BitVec 64 := n &&& (1#64 <<< 63)

def signinf (n : BitVec 64) : BitVec 64 := (n &&& (1#64 <<< 63)) ||| 0x7ff0000000000000

def negative (n : BitVec 64) : Bool := n >>> 63 != 0

def infinite (n : BitVec 64) : Bool := magnitude n == 0x7ff0000000000000

def isNan (n : BitVec 64) : Bool := magnitude n > 0x7ff0000000000000

def isqnan (n : BitVec 64) : Bool := magnitude n == 0x7ff8000000000000

def anyqnan (n : BitVec 64) : Bool := magnitude n ≥ 0x7ff8000000000000

def neganyqnan (n : BitVec 64) : Bool := n ≥ 0xfff8000000000000

/-- `ABS` on `int64_t`, wrapping at the least value. -/
def abs64 (x : BitVec 64) : BitVec 64 := if x.slt 0 then -x else x

/-- `fabs(n) < FLT_MIN`. -/
def belowFltMin (n : BitVec 64) : Bool := magnitude n < 0x3810000000000000

/-- `fabs(n) >= FLT_MAX`. -/
def atLeastFltMax (n : BitVec 64) : Bool := magnitude n ≥ 0x47efffffe0000000 && !isNan n

/-- `for (; x < (1LL << 52); x <<= 1, exp--) {}`. -/
def normLoop : ℕ → BitVec 64 → ℤ → BitVec 64 × ℤ
  | 0, x, exp => (x, exp)
  | fuel + 1, x, exp => if x < 1#64 <<< 52 then normLoop fuel (x <<< 1) (exp - 1) else (x, exp)

/-- `n & ((1LL << 52) - 1)`. -/
def fraction (n : BitVec 64) : BitVec 64 := n &&& ((1#64 <<< 52) - 1)

def exponent (n : BitVec 64) : ℤ :=
  if zero n then -4096
  else
    let exp := (n >>> 52) &&& 0x7ff
    if exp = 0x7ff then 4096
    else if exp = 0 then (normLoop 52 (fraction n) 0).2 - 1023
    else (exp.toNat : ℤ) - 1023

/-- The hidden bit is added for denormalized numbers, not for normalized ones. -/
def mantissa (n : BitVec 64) : BitVec 64 :=
  fraction n + if (n >>> 52) &&& 0x7ff = 0 then 1#64 <<< 52 else 0

def normalize (n : BitVec 64) : BitVec 64 :=
  if !denormalized n then n
  else
    -- underflow adds 1536
    let r := normLoop 52 (fraction n) (1536 + 1)
    (n &&& (1#64 <<< 63)) ||| (BitVec.ofInt 64 r.2 <<< 52) ||| (r.1 &&& ((1#64 <<< 52) - 1))

/-- The loop ends by its own test for every fraction that is not zero. -/
theorem normLoop_le (fuel : ℕ) (x : BitVec 64) (exp : ℤ) (hx : x.toNat < 2 ^ 53)
    (hfuel : 2 ^ 52 ≤ x.toNat * 2 ^ fuel) : 2 ^ 52 ≤ (normLoop fuel x exp).1.toNat := by
  induction fuel generalizing x exp with
  | zero => simpa [normLoop] using hfuel
  | succ fuel ih =>
    have hbound : (1#64 <<< 52).toNat = 2 ^ 52 := by decide
    simp only [normLoop]
    split_ifs with hlt
    · rw [BitVec.lt_def, hbound] at hlt
      have hshift : (x <<< 1).toNat = 2 * x.toNat := by
        rw [BitVec.toNat_shiftLeft, Nat.shiftLeft_eq]
        omega
      refine ih _ _ (by omega) ?_
      rw [hshift]
      calc 2 ^ 52 ≤ x.toNat * 2 ^ (fuel + 1) := hfuel
        _ = 2 * x.toNat * 2 ^ fuel := by rw [pow_succ]; ring
    · rw [BitVec.lt_def, hbound] at hlt
      exact not_lt.mp hlt

theorem fraction_toNat (n : BitVec 64) : (fraction n).toNat = n.toNat % 2 ^ 52 := by
  have hmask : ((1#64 <<< 52) - 1).toNat = 2 ^ 52 - 1 := by decide
  rw [fraction, BitVec.toNat_and, hmask, Nat.and_two_pow_sub_one_eq_mod]

theorem magnitude_toNat (n : BitVec 64) : (magnitude n).toNat = n.toNat % 2 ^ 63 := by
  have hmask : (~~~(1#64 <<< 63)).toNat = 2 ^ 63 - 1 := by decide
  rw [magnitude, BitVec.toNat_and, hmask, Nat.and_two_pow_sub_one_eq_mod]

/-- A denormalized number has a fraction for the loop to work on, so that 52 rounds are enough. -/
theorem normLoop_denormalized {n : BitVec 64} (h : denormalized n = true) (exp : ℤ) :
    2 ^ 52 ≤ (normLoop 52 (fraction n) exp).1.toNat := by
  simp only [denormalized, Bool.and_eq_true, beq_iff_eq, bne_iff_ne] at h
  have hexp : n.toNat / 2 ^ 52 % 2 ^ 11 = 0 := by
    have := congrArg BitVec.toNat h.1
    rwa [BitVec.toNat_and, show BitVec.toNat (2047 : BitVec 64) = 2 ^ 11 - 1 by decide,
      Nat.and_two_pow_sub_one_eq_mod, BitVec.toNat_ushiftRight, Nat.shiftRight_eq_div_pow] at this
  have hmag : n.toNat % 2 ^ 63 ≠ 0 := by
    rw [← magnitude_toNat]
    exact fun hz => h.2 (BitVec.eq_of_toNat_eq hz)
  have hfrac := fraction_toNat n
  exact normLoop_le 52 (fraction n) exp (by omega) (by omega)

end Risu.Ppc64
