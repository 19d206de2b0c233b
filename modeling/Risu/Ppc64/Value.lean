import Risu.Lib.BitField
import Risu.Lib.FloatFormat
import Risu.Lib.Loop
import Risu.Ppc64.Float

/-!
# What the helpers on doubles compute (`exponent`, `mantissa`, `normalize`)

* `normStep` — the loop of `exponent` and `normalize` as it stands, with `normLoop_ends`;
* `normLoop_eq` — how often it shifts;
* `denormalized_iff`, `fraction_eq`, `biased_eq` — the fields that the helpers read;
* `normalize_fields` — the fields of a normalized number;
* `normalize_exact` — `normalize` multiplies denormalized numbers by a power of two;
* `exponent_exact_iff` — `exponent` is one too small for denormalized numbers;
* `mantissa_never` — `mantissa` misses the hidden bit of every normalized number.
-/

namespace Risu.Ppc64

open Lib

/-! ### The loop -/

/-- One round of `for (; x < (1LL << 52); x <<= 1, exp--) {}`. -/
def normStep (s : BitVec 64 × ℤ) : Progress (BitVec 64 × ℤ) (BitVec 64 × ℤ) :=
  if s.1 < 1#64 <<< 52 then .going (s.1 <<< 1, s.2 - 1) else .done s

theorem toNat_hidden : (1#64 <<< 52).toNat = 2 ^ 52 := by decide

theorem toNat_shift_one {x : BitVec 64} (h : x < 1#64 <<< 52) : (x <<< 1).toNat = 2 * x.toNat := by
  rw [BitVec.lt_def, toNat_hidden] at h
  rw [BitVec.toNat_shiftLeft, Nat.shiftLeft_eq]
  omega

/-- The loop ends, with what it has after as many rounds as there is fuel. -/
theorem normLoop_ends (fuel : ℕ) (x : BitVec 64) (exp : ℤ) (hfuel : 2 ^ 52 ≤ x.toNat * 2 ^ fuel) :
    EndsAs normStep (x, exp) (normLoop fuel x exp) := by
  induction fuel generalizing x exp with
  | zero =>
    have hstep : normStep (x, exp) = .done (x, exp) := by
      refine if_neg fun hlt => ?_
      rw [BitVec.lt_def, toNat_hidden] at hlt
      rw [pow_zero, mul_one] at hfuel
      exact absurd hfuel (not_le.mpr hlt)
    exact (endsAs_done hstep).mpr rfl
  | succ fuel ih =>
    rw [normLoop]
    split_ifs with hlt
    · have hstep : normStep (x, exp) = .going (x <<< 1, exp - 1) := if_pos hlt
      refine (endsAs_going hstep).mpr (ih _ _ ?_)
      rw [toNat_shift_one hlt]
      rwa [mul_comm 2, mul_assoc, ← pow_succ']
    · have hstep : normStep (x, exp) = .done (x, exp) := if_neg hlt
      exact (endsAs_done hstep).mpr rfl

/-- Each round doubles the number and takes one from the exponent. -/
theorem normLoop_eq (fuel : ℕ) (x : BitVec 64) (exp : ℤ) (hx : x.toNat < 2 ^ 53) :
    ∃ k ≤ fuel, (normLoop fuel x exp).1.toNat = x.toNat * 2 ^ k ∧ (normLoop fuel x exp).2 = exp - k ∧
      (normLoop fuel x exp).1.toNat < 2 ^ 53 := by
  induction fuel generalizing x exp with
  | zero => exact ⟨0, le_rfl, (mul_one _).symm, (sub_zero exp).symm, hx⟩
  | succ fuel ih =>
    rw [normLoop]
    split_ifs with hlt
    · have hshift := toNat_shift_one hlt
      have hbound : (x <<< 1).toNat < 2 ^ 53 := by
        rw [BitVec.lt_def, toNat_hidden] at hlt
        omega
      obtain ⟨k, hk, hnum, hexp, hlast⟩ := ih (x <<< 1) (exp - 1) hbound
      refine ⟨k + 1, Nat.succ_le_succ hk, ?_, ?_, hlast⟩
      · rw [hnum, hshift, mul_comm 2, mul_assoc, ← pow_succ']
      · rw [hexp, Nat.cast_succ]
        ring
    · exact ⟨0, Nat.zero_le _, (mul_one _).symm, (sub_zero exp).symm, hx⟩

/-! ### Fields -/

theorem fraction_eq (n : BitVec 64) : (fraction n).toNat = binary64.fraction n.toNat := fraction_toNat n

theorem biased_eq (n : BitVec 64) : ((n >>> 52) &&& 0x7ff).toNat = binary64.biased n.toNat := by
  have hmask : BitVec.toNat (0x7ff : BitVec 64) = 2 ^ 11 - 1 := by decide
  rw [BitVec.toNat_and, hmask, Nat.and_two_pow_sub_one_eq_mod, BitVec.toNat_ushiftRight,
    Nat.shiftRight_eq_div_pow]
  rfl

theorem biased_eq_zero (n : BitVec 64) : (n >>> 52) &&& 0x7ff = 0 ↔ binary64.biased n.toNat = 0 := by
  rw [← BitVec.toNat_inj, biased_eq]
  rfl

theorem biased_eq_max (n : BitVec 64) : (n >>> 52) &&& 0x7ff = 0x7ff ↔ ¬ binary64.Finite n.toNat := by
  rw [← BitVec.toNat_inj, biased_eq]
  exact not_not.symm

/-- The bits below the sign are the exponent and the fraction. -/
theorem magnitude_eq (n : BitVec 64) :
    (magnitude n).toNat = binary64.biased n.toNat * 2 ^ 52 + binary64.fraction n.toNat := by
  rw [magnitude_toNat]
  show n.toNat % 2 ^ 63 = n.toNat / 2 ^ 52 % 2 ^ 11 * 2 ^ 52 + n.toNat % 2 ^ 52
  omega

theorem magnitude_eq_zero (n : BitVec 64) :
    magnitude n = 0 ↔ binary64.biased n.toNat = 0 ∧ binary64.fraction n.toNat = 0 := by
  rw [← BitVec.toNat_inj, magnitude_eq]
  show _ = 0 ↔ _
  omega

theorem denormalized_iff (n : BitVec 64) : denormalized n = true ↔ binary64.Denormal n.toNat := by
  rw [denormalized, Bool.and_eq_true, beq_iff_eq, bne_iff_ne, ne_eq, biased_eq_zero, magnitude_eq_zero]
  exact and_congr_right fun h => not_congr (and_iff_right h)

theorem zero_iff (n : BitVec 64) : zero n = true ↔ binary64.significand n.toNat = 0 := by
  have hpow : 2 ^ binary64.fractionBits ≠ 0 := by decide
  rw [zero, beq_iff_eq, magnitude_eq_zero, Format.significand]
  split_ifs with h
  · exact and_iff_right h
  · exact iff_of_false (fun hz => h hz.1) fun hz => hpow (Nat.add_eq_zero_iff.mp hz).1

/-! ### Normalized numbers -/

theorem toNat_signz (n : BitVec 64) : (n &&& (1#64 <<< 63)).toNat = 2 ^ 63 * (n.toNat / 2 ^ 63) := by
  have hsplit : n &&& (1#64 <<< 63) = n - magnitude n := by
    rw [magnitude]
    exact and_eq_sub n (1#64 <<< 63)
  have hle : magnitude n ≤ n := by
    rw [BitVec.le_def, magnitude_toNat]
    exact Nat.mod_le _ _
  rw [hsplit, BitVec.toNat_sub_of_le hle, magnitude_toNat]
  omega

/-- A pattern that is put together from its fields. -/
theorem toNat_fields (n y : BitVec 64) {k : ℕ} (hk : k < 2 ^ 11) :
    ((n &&& (1#64 <<< 63)) ||| (BitVec.ofInt 64 k <<< 52) ||| (y &&& ((1#64 <<< 52) - 1))).toNat =
      2 ^ 63 * (n.toNat / 2 ^ 63) + (2 ^ 52 * k + y.toNat % 2 ^ 52) := by
  have hmask : ((1#64 <<< 52) - 1).toNat = 2 ^ 52 - 1 := by decide
  have hexp : (BitVec.ofInt 64 k <<< 52).toNat = 2 ^ 52 * k := by
    rw [BitVec.ofInt_natCast, BitVec.toNat_shiftLeft, BitVec.toNat_ofNat, Nat.shiftLeft_eq]
    omega
  have hfrac : y.toNat % 2 ^ 52 < 2 ^ 52 := Nat.mod_lt _ (Nat.two_pow_pos 52)
  have hlow : 2 ^ 52 * k + y.toNat % 2 ^ 52 < 2 ^ 63 := by omega
  rw [BitVec.toNat_or, BitVec.toNat_or, toNat_signz, hexp, BitVec.toNat_and, hmask,
    Nat.and_two_pow_sub_one_eq_mod, Nat.or_assoc, ← Nat.two_pow_add_eq_or_of_lt hfrac,
    ← Nat.two_pow_add_eq_or_of_lt hlow]

theorem negative_eq (n : BitVec 64) : binary64.negative n.toNat = decide (n.toNat / 2 ^ 63 = 1) := by
  have hn := n.isLt
  have hmod : n.toNat / 2 ^ 63 % 2 = n.toNat / 2 ^ 63 := by omega
  show n.toNat.testBit 63 = _
  rw [Nat.testBit_eq_decide_div_mod_eq, hmod]

/-- A denormalized number is shifted until its first bit is the hidden one. -/
theorem normalize_fields {n : BitVec 64} (h : binary64.Denormal n.toNat) :
    ∃ k : ℕ, k ≤ 52 ∧ binary64.biased (normalize n).toNat = 1537 - k ∧
      2 ^ 52 + binary64.fraction (normalize n).toNat = binary64.fraction n.toNat * 2 ^ k ∧
      binary64.negative (normalize n).toNat = binary64.negative n.toNat := by
  have hden := (denormalized_iff n).mpr h
  have hlt : (fraction n).toNat < 2 ^ 53 := by
    rw [fraction_toNat]
    omega
  obtain ⟨k, hk, hnum, hexp, hhigh⟩ := normLoop_eq 52 (fraction n) (1536 + 1) hlt
  have hlow := normLoop_denormalized hden (1536 + 1)
  have hexp' : (normLoop 52 (fraction n) (1536 + 1)).2 = (1537 - k : ℕ) := by
    rw [hexp]
    omega
  have hpattern := toNat_fields n (normLoop 52 (fraction n) (1536 + 1)).1
    (show 1537 - k < 2 ^ 11 by omega)
  have hnormalize : (normalize n).toNat = 2 ^ 63 * (n.toNat / 2 ^ 63) + (2 ^ 52 * (1537 - k) +
      (normLoop 52 (fraction n) (1536 + 1)).1.toNat % 2 ^ 52) := by
    rw [normalize, hden, if_neg (show ¬(!true) = true from Bool.false_ne_true)]
    dsimp only
    rw [hexp', hpattern]
  rw [fraction_eq] at hnum
  generalize (normLoop 52 (fraction n) (1536 + 1)).1.toNat = x at hlow hhigh hnum hnormalize
  have hn := n.isLt
  refine ⟨k, hk, ?_, ?_, ?_⟩
  · show (normalize n).toNat / 2 ^ 52 % 2 ^ 11 = 1537 - k
    omega
  · rw [← hnum]
    show 2 ^ 52 + (normalize n).toNat % 2 ^ 52 = x
    omega
  · rw [negative_eq, negative_eq]
    congr 2
    omega

theorem normalize_eq_self {n : BitVec 64} (h : ¬ binary64.Denormal n.toNat) : normalize n = n := by
  have hden : denormalized n = false := Bool.not_eq_true _ ▸ mt (denormalized_iff n).mp h
  rw [normalize, hden]
  rfl

theorem scale_denormal {n : ℕ} (h : binary64.biased n = 0) : binary64.scale n = -1074 := by
  rw [Format.scale, if_pos h]
  rfl

theorem scale_normal {n : ℕ} (h : binary64.biased n ≠ 0) : binary64.scale n = binary64.biased n - 1075 := by
  rw [Format.scale, if_neg h]
  show (binary64.biased n : ℤ) - 1023 - 52 = _
  ring

theorem normal_of_denormal {n : BitVec 64} (h : binary64.Denormal n.toNat) :
    binary64.Normal (normalize n).toNat := by
  obtain ⟨k, hk, hbiased, -⟩ := normalize_fields h
  rw [Format.Normal, Format.Finite, hbiased]
  show 1537 - k ≠ 0 ∧ 1537 - k ≠ 2 ^ 11 - 1
  omega

/-- The value of a denormalized number is multiplied by a power of two. -/
theorem value_normalize {n : BitVec 64} (h : binary64.Denormal n.toNat) :
    binary64.value (normalize n).toNat = 2 ^ 1536 * binary64.value n.toNat := by
  obtain ⟨k, hk, hbiased, hfrac, hneg⟩ := normalize_fields h
  have hne := (normal_of_denormal h).1
  have hsignificand : binary64.significand (normalize n).toNat = binary64.fraction n.toNat * 2 ^ k := by
    rw [Format.significand, if_neg hne]
    exact hfrac
  have hscale : binary64.scale (normalize n).toNat = 462 - k := by
    rw [scale_normal hne, hbiased]
    omega
  have hpow : (2 : ℚ) ^ k * 2 ^ (462 - k : ℤ) = 2 ^ 1536 * 2 ^ (-1074 : ℤ) := by
    rw [← zpow_natCast, ← zpow_natCast, ← zpow_add₀ two_ne_zero, ← zpow_add₀ two_ne_zero]
    congr 1
    push_cast
    ring
  rw [Format.value, Format.value, hneg, hsignificand, hscale, Format.significand, if_pos h.1,
    scale_denormal h.1, Nat.cast_mul, Nat.cast_pow, Nat.cast_ofNat, mul_assoc, hpow]
  generalize (2 : ℚ) ^ 1536 = factor
  ring

/-- **`normalize` is exact**: it ends, changes nothing but denormalized numbers, and makes them normalized
numbers of the same sign and of 2^1536 times their value. -/
theorem normalize_exact (n : BitVec 64) :
    (¬ binary64.Denormal n.toNat → normalize n = n) ∧
      (binary64.Denormal n.toNat →
        EndsAs normStep (fraction n, 1536 + 1) (normLoop 52 (fraction n) (1536 + 1)) ∧
        binary64.Normal (normalize n).toNat ∧
        binary64.negative (normalize n).toNat = binary64.negative n.toNat ∧
        binary64.value (normalize n).toNat = 2 ^ 1536 * binary64.value n.toNat) := by
  refine ⟨normalize_eq_self, fun h => ⟨normLoop_ends 52 _ _ ?_, normal_of_denormal h, ?_, value_normalize h⟩⟩
  · have hpos := Nat.pos_of_ne_zero h.2
    rw [fraction_eq]
    exact Nat.le_mul_of_pos_left _ hpos
  · obtain ⟨_, _, _, _, hneg⟩ := normalize_fields h
    exact hneg

theorem normalize_exact_one :
    binary64.Denormal (1#64).toNat ∧ binary64.value (normalize 1).toNat = 2 ^ 1536 * binary64.value 1 :=
  ⟨by decide, ((normalize_exact 1).2 (by decide)).2.2.2⟩

/-! ### The binary exponent -/

theorem zero_eq_false {n : BitVec 64} (h : binary64.value n.toNat ≠ 0) : zero n = false :=
  Bool.not_eq_true _ ▸ mt (zero_iff n).mp (Format.value_ne_zero.mp h)

theorem exponent_normal {n : BitVec 64} (h : binary64.Normal n.toNat) :
    exponent n = (binary64.biased n.toNat : ℤ) - 1023 := by
  have hvalue := (Format.value_ne_zero_iff h.2).mpr (.inl h)
  rw [exponent, zero_eq_false hvalue, if_neg Bool.false_ne_true]
  dsimp only
  rw [if_neg (mt (biased_eq_max n).mp (not_not.mpr h.2)), if_neg (mt (biased_eq_zero n).mp h.1),
    biased_eq]

/-- The exponent of a denormalized number, with the number of shifts. -/
theorem exponent_denormal {n : BitVec 64} (h : binary64.Denormal n.toNat) :
    ∃ k : ℕ, k ≤ 52 ∧ exponent n = -k - 1023 ∧ 2 ^ 52 ≤ binary64.fraction n.toNat * 2 ^ k ∧
      binary64.fraction n.toNat * 2 ^ k < 2 ^ 53 := by
  have hfin : binary64.Finite n.toNat := by
    rw [Format.Finite, h.1]
    decide
  have hvalue := (Format.value_ne_zero_iff hfin).mpr (.inr h)
  have hlt : (fraction n).toNat < 2 ^ 53 := by
    rw [fraction_toNat]
    omega
  obtain ⟨k, hk, hnum, hexp, hhigh⟩ := normLoop_eq 52 (fraction n) 0 hlt
  have hlow := normLoop_denormalized ((denormalized_iff n).mpr h) 0
  rw [fraction_eq] at hnum
  refine ⟨k, hk, ?_, hnum ▸ hlow, hnum ▸ hhigh⟩
  rw [exponent, zero_eq_false hvalue, if_neg Bool.false_ne_true]
  dsimp only
  rw [if_neg (mt (biased_eq_max n).mp (not_not.mpr hfin)), if_pos ((biased_eq_zero n).mpr h.1), hexp,
    zero_sub]

/-- `exponent` is the binary exponent of normalized numbers. -/
theorem exponent_mem {n : BitVec 64} (h : binary64.Normal n.toNat) :
    2 ^ exponent n ≤ |binary64.value n.toNat| ∧ |binary64.value n.toNat| < 2 ^ (exponent n + 1) := by
  have hfrac : binary64.fraction n.toNat < 2 ^ 52 := Format.fraction_lt
  have hsignificand : binary64.significand n.toNat = 2 ^ 52 + binary64.fraction n.toNat := if_neg h.1
  have hexp : exponent n = binary64.scale n.toNat + (52 : ℕ) := by
    rw [exponent_normal h, scale_normal h.1]
    push_cast
    ring
  rw [hexp]
  exact Format.abs_value_mem (by omega) (by omega)

/-- It is one less than that of a denormalized number. -/
theorem exponent_too_small {n : BitVec 64} (h : binary64.Denormal n.toNat) :
    2 ^ (exponent n + 1) ≤ |binary64.value n.toNat| := by
  obtain ⟨k, hk, hexp, hlow, hhigh⟩ := exponent_denormal h
  have hsignificand : binary64.significand n.toNat = binary64.fraction n.toNat := if_pos h.1
  have hsplit (j : ℕ) (hj : k ≤ j) : 2 ^ j = 2 ^ (j - k) * 2 ^ k := by
    rw [← pow_add, Nat.sub_add_cancel hj]
  have hfirst : 2 ^ (52 - k) ≤ binary64.significand n.toNat := by
    rw [hsplit 52 hk] at hlow
    exact hsignificand ▸ Nat.le_of_mul_le_mul_right hlow (Nat.two_pow_pos k)
  have hlast : binary64.significand n.toNat < 2 ^ (52 - k + 1) := by
    rw [hsplit 53 (hk.trans (by decide))] at hhigh
    have hlt := Nat.lt_of_mul_lt_mul_right hhigh
    rwa [hsignificand, ← Nat.sub_add_comm hk]
  have hplace : exponent n + 1 = binary64.scale n.toNat + (52 - k : ℕ) := by
    rw [hexp, scale_denormal h.1]
    omega
  rw [hplace]
  exact (Format.abs_value_mem hfirst hlast).1

/-- **`exponent` is the binary exponent** of a finite number other than zero exactly when the number is
normalized: the loop starts with the exponent 0, where denormalized numbers have the exponent 1. -/
theorem exponent_exact_iff (n : BitVec 64) (hfin : binary64.Finite n.toNat)
    (hne : binary64.value n.toNat ≠ 0) :
    (2 ^ exponent n ≤ |binary64.value n.toNat| ∧ |binary64.value n.toNat| < 2 ^ (exponent n + 1)) ↔
      denormalized n = false := by
  rw [← Bool.not_eq_true, denormalized_iff]
  rcases (Format.value_ne_zero_iff hfin).mp hne with hnormal | hdenormal
  · exact iff_of_true (exponent_mem hnormal) fun h => hnormal.1 h.1
  · exact iff_of_false (fun h => not_lt.mpr (exponent_too_small hdenormal) h.2) (not_not.mpr hdenormal)

/-- 1.0 -/
theorem exponent_exact_one_double :
    2 ^ exponent 0x3ff0000000000000 ≤ |binary64.value (0x3ff0000000000000#64).toNat| ∧
      |binary64.value (0x3ff0000000000000#64).toNat| < 2 ^ (exponent 0x3ff0000000000000 + 1) :=
  have hfin : binary64.Finite (0x3ff0000000000000#64).toNat := by decide
  (exponent_exact_iff 0x3ff0000000000000 hfin
    ((Format.value_ne_zero_iff hfin).mpr (.inl (by decide)))).mpr (by decide)

/-- The least denormalized number. -/
theorem not_exponent_exact_least : ¬∀ n : BitVec 64, binary64.Finite n.toNat →
    binary64.value n.toNat ≠ 0 →
      2 ^ exponent n ≤ |binary64.value n.toNat| ∧ |binary64.value n.toNat| < 2 ^ (exponent n + 1) := by
  intro h
  have hden : binary64.Denormal (1#64).toNat := by decide
  have hfin : binary64.Finite (1#64).toNat := by decide
  have hlt := (h 1 hfin ((Format.value_ne_zero_iff hfin).mpr (.inr hden))).2
  exact not_lt.mpr (exponent_too_small hden) hlt

/-! ### The significand -/

/-- The hidden bit is missing. -/
theorem abs_value_eq {n : BitVec 64} (h : binary64.Normal n.toNat) :
    |binary64.value n.toNat| = (2 ^ 52 + (mantissa n).toNat) * 2 ^ (exponent n - 52) := by
  have hmantissa : (mantissa n).toNat = binary64.fraction n.toNat := by
    rw [mantissa, if_neg (mt (biased_eq_zero n).mp h.1)]
    show (fraction n + 0#64).toNat = _
    rw [BitVec.add_zero]
    exact fraction_eq n
  have hsignificand : binary64.significand n.toNat = 2 ^ 52 + binary64.fraction n.toNat := if_neg h.1
  have hscale : exponent n - 52 = binary64.scale n.toNat := by
    rw [exponent_normal h, scale_normal h.1]
    ring
  rw [Format.abs_value, hscale, hmantissa, hsignificand, Nat.cast_add, Nat.cast_pow, Nat.cast_ofNat]

theorem normalize_normal {n : BitVec 64} (hfin : binary64.Finite n.toNat)
    (hne : binary64.value n.toNat ≠ 0) : binary64.Normal (normalize n).toNat := by
  rcases (Format.value_ne_zero_iff hfin).mp hne with hnormal | hdenormal
  · rw [normalize_eq_self fun h => hnormal.1 h.1]
    exact hnormal
  · exact normal_of_denormal hdenormal

theorem mantissa_ne {n : BitVec 64} (h : binary64.Normal n.toNat) :
    |binary64.value n.toNat| ≠ (mantissa n).toNat * 2 ^ (exponent n - 52) := by
  have hpow : (0 : ℚ) < 2 ^ (exponent n - 52) := zpow_pos two_pos _
  rw [abs_value_eq h, add_mul]
  exact (lt_add_of_pos_left _ (mul_pos (by norm_num) hpow)).ne'

/-- **`mantissa` is never the significand** of a normalized number: it adds the hidden bit to the
denormalized ones only. -/
theorem mantissa_never (n : BitVec 64) (hfin : binary64.Finite n.toNat)
    (hne : binary64.value n.toNat ≠ 0) :
    ¬ |binary64.value (normalize n).toNat| =
      (mantissa (normalize n)).toNat * 2 ^ (exponent (normalize n) - 52) :=
  mantissa_ne (normalize_normal hfin hne)

theorem mantissa_never_one_double : ¬ |binary64.value (normalize 0x3ff0000000000000).toNat| =
    (mantissa (normalize 0x3ff0000000000000)).toNat * 2 ^ (exponent (normalize 0x3ff0000000000000) - 52) :=
  have hfin : binary64.Finite (0x3ff0000000000000#64).toNat := by decide
  mantissa_never 0x3ff0000000000000 hfin ((Format.value_ne_zero_iff hfin).mpr (.inl (by decide)))

/-- 1.0 -/
theorem not_mantissa_one_double : ¬∀ n : BitVec 64, binary64.Finite n.toNat →
    binary64.value n.toNat ≠ 0 → |binary64.value (normalize n).toNat| =
      (mantissa (normalize n)).toNat * 2 ^ (exponent (normalize n) - 52) := by
  intro h
  have hfin : binary64.Finite (0x3ff0000000000000#64).toNat := by decide
  have hne := (Format.value_ne_zero_iff hfin).mpr (.inl (by decide))
  exact mantissa_ne (normalize_normal hfin hne) (h _ hfin hne)

end Risu.Ppc64
