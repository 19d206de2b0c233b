import Risu.Gen.Arm.InlineA64

/-!
# Alignments (`ctz`, `write_align_reg`)

* `ctzLoop`, `ctz_eq` — the loop of `ctz`, and the place of the highest bit;
* `TrailingZeros`, `Clears` — what `ctz` and `write_align_reg` are meant to do;
* `clears_log2` — what the mask of `write_align_reg` clears;
* `ctz_exact_iff` — the two agree at powers of two.
-/

namespace Risu.Gen.Arm

open Lib

/-! ### The loop -/

theorem toNat_shr_uv_one (v : ℕ) : (shr (uv v) 1).toNat = (uv v).toNat / 2 := by
  have hshift : shr (uv v) 1 = uv v >>> 1 := rfl
  rw [hshift, BitVec.toNat_ushiftRight, Nat.shiftRight_one]

/-- `for (my $cnt = $in; $cnt > 1; $cnt >>= 1) { $imm += 1; }` -/
def ctzLoop (cnt imm : ℕ) : ℕ := if 1 < cnt then ctzLoop (shr (uv cnt) 1).toNat (imm + 1) else imm
termination_by cnt
decreasing_by
  rw [toNat_shr_uv_one, toNat_uv_natCast]
  omega

theorem ctzLoop_eq (cnt imm : ℕ) : ctzLoop cnt imm = imm + ctz cnt := by
  fun_induction ctzLoop cnt imm with
  | case1 cnt imm h ih =>
    have hhalf : (shr (uv cnt) 1).toNat = min cnt (2 ^ 64 - 1) / 2 := by
      rw [toNat_shr_uv_one, toNat_uv_natCast]
    have hsmall : min (min cnt (2 ^ 64 - 1) / 2) (2 ^ 64 - 1) = min cnt (2 ^ 64 - 1) / 2 := by omega
    have htwo : 2 ≤ min cnt (2 ^ 64 - 1) := by omega
    rw [ih, ctz, ctz, toNat_uv_natCast, toNat_uv_natCast, hhalf, hsmall, Nat.log2_def (min cnt _), if_pos htwo]
    omega
  | case2 cnt imm h =>
    have hone : ¬2 ≤ min cnt (2 ^ 64 - 1) := by omega
    rw [ctz, toNat_uv_natCast, Nat.log2_def, if_neg hone, Nat.add_zero]

theorem ctz_eq (x : ℕ) : ctz x = ctzLoop x 0 := by rw [ctzLoop_eq, Nat.zero_add]

theorem ctz_of_lt {x : ℕ} (h : x < 2 ^ 64) : ctz x = Nat.log2 x := by
  have hmin : min x (2 ^ 64 - 1) = x := by omega
  rw [ctz, toNat_uv_natCast, hmin]

/-- A number beyond 64 bits is cut off. -/
theorem ctz_of_le {x : ℕ} (h : 2 ^ 64 ≤ x) : ctz x = 63 := by
  have hmin : min x (2 ^ 64 - 1) = 2 ^ 64 - 1 := by omega
  rw [ctz, toNat_uv_natCast, hmin]
  decide

/-! ### Trailing zeros -/

/-- The number of trailing zeros. -/
def TrailingZeros (x t : ℕ) : Prop := 2 ^ t ∣ x ∧ ¬2 ^ (t + 1) ∣ x

/-- The highest bit is the lowest one of powers of two only. -/
theorem trailingZeros_log2 {x : ℕ} (hx : 0 < x) : TrailingZeros x (Nat.log2 x) ↔ ∃ k, x = 2 ^ k := by
  constructor
  · rintro ⟨⟨m, hm⟩, -⟩
    have hpow : 0 < 2 ^ Nat.log2 x := Nat.two_pow_pos _
    have hlt : 2 ^ Nat.log2 x * m < 2 ^ Nat.log2 x * 2 := by
      rw [← hm, ← Nat.pow_succ]
      exact Nat.lt_log2_self
    have hm2 : m < 2 := Nat.lt_of_mul_lt_mul_left hlt
    have hm0 : m ≠ 0 := by
      rintro rfl
      exact hx.ne' hm
    have hm1 : m = 1 := by omega
    exact ⟨Nat.log2 x, by rw [hm1, Nat.mul_one] at hm; exact hm⟩
  · rintro ⟨k, rfl⟩
    rw [Nat.log2_two_pow]
    refine ⟨dvd_rfl, fun hdvd => ?_⟩
    exact absurd (Nat.le_of_dvd hx hdvd) (not_le.mpr (Nat.pow_lt_pow_succ Nat.one_lt_two))

/-! ### Masks -/

/-- The word is an `AND` of a mask for 64 bits that clears the low bits and no others. -/
def Clears (w : Word) (t : ℕ) : Prop :=
  w.extractLsb' 22 10 = 0x249 ∧
    ∀ v : BitVec 64, v &&& bitMask (w.extractLsb' 16 6) (w.extractLsb' 10 6) = (v >>> t) <<< t

theorem and_bitMask {c : ℕ} (hpos : 0 < c) (hc : c < 64) (v : BitVec 64) :
    v &&& bitMask (BitVec.ofNat 6 (64 - c)) (BitVec.ofNat 6 (63 - c)) = (v >>> c) <<< c := by
  have hr : (BitVec.ofNat 6 (64 - c)).toNat = 64 - c := by
    rw [BitVec.toNat_ofNat]
    omega
  have hs : (BitVec.ofNat 6 (63 - c)).toNat + 1 = 64 - c := by
    rw [BitVec.toNat_ofNat]
    omega
  have hone (i : ℕ) : (BitVec.ofNat 64 (2 ^ (64 - c) - 1)).getLsbD i = decide (i < 64 - c) := by
    rw [BitVec.getLsbD_ofNat, Nat.testBit_two_pow_sub_one]
    by_cases hi : i < 64 - c
    · rw [decide_eq_true (show i < 64 by omega), Bool.true_and]
    · rw [decide_eq_false hi, Bool.and_false]
  have hbit (i : ℕ) (hi : i < 64) :
      (bitMask (BitVec.ofNat 6 (64 - c)) (BitVec.ofNat 6 (63 - c))).getLsbD i = decide (c ≤ i) := by
    have hmod : (64 - c) % 64 = 64 - c := Nat.mod_eq_of_lt (by omega)
    have hsub : 64 - (64 - c) = c := by omega
    rw [bitMask, hr, hs, BitVec.getLsbD_rotateRight, hmod, hsub]
    by_cases hic : i < c
    · rw [decide_eq_true hic, cond_true, hone, decide_eq_false (by omega), decide_eq_false (by omega)]
    · rw [decide_eq_false hic, cond_false, hone, decide_eq_true hi, Bool.true_and,
        decide_eq_true (by omega), decide_eq_true (by omega)]
  apply BitVec.eq_of_getLsbD_eq
  intro i hi
  rw [BitVec.getLsbD_and, hbit i hi, BitVec.getLsbD_shiftLeft, BitVec.getLsbD_ushiftRight]
  by_cases hic : c ≤ i
  · have hback : c + (i - c) = i := by omega
    simp [hic, hi, hback, not_lt.mpr hic]
  · simp [hic, not_le.mp hic]

/-- The mask of the encoding clears as many bits as `ctz` returns. -/
theorem clears_log2 {rd : BitVec 5} {align : ℕ} (hlt : align < 2 ^ 64) {w : Word}
    (hw : writeAlignReg .aarch64 (rd.setWidth 64) align = some w) : Clears w (Nat.log2 align) := by
  by_cases h2 : align < 2
  · rw [writeAlignReg, if_pos h2] at hw
    cases hw
  rw [writeAlignReg, if_neg h2, if_pos rfl, Option.some.injEq] at hw
  have hpos : 0 < Nat.log2 align := (Nat.le_log2 (by omega)).mpr (not_lt.mp h2)
  have hlog : Nat.log2 align < 64 := (Nat.log2_lt (by omega)).mpr hlt
  rw [ctz_of_lt hlt] at hw
  generalize Nat.log2 align = c at hw hpos hlog ⊢
  have hr : 64 - BitVec.ofNat 64 c = (BitVec.ofNat 6 (64 - c)).setWidth 64 := by
    apply BitVec.eq_of_toNat_eq
    simp
    omega
  have hs : 63 - BitVec.ofNat 64 c = (BitVec.ofNat 6 (63 - c)).setWidth 64 := by
    apply BitVec.eq_of_toNat_eq
    simp
    omega
  rw [hr, hs] at hw
  have hop : w.extractLsb' 22 10 = 0x249 := by
    simp [← hw, insn32, BitVec.extractLsb'_or]
  have himmr : w.extractLsb' 16 6 = BitVec.ofNat 6 (64 - c) := by
    simp [← hw, insn32, BitVec.extractLsb'_or]
  have himms : w.extractLsb' 10 6 = BitVec.ofNat 6 (63 - c) := by
    simp [← hw, insn32, BitVec.extractLsb'_or]
  refine ⟨hop, fun v => ?_⟩
  rw [himmr, himms]
  exact and_bitMask hpos hlog v

theorem Clears.not_lt {w : Word} {t c : ℕ} (ht : Clears w t) (hc : Clears w c) (h64 : t < 64) : ¬ t < c := by
  intro hlt
  have hv : (BitVec.allOnes 64 >>> t) <<< t = (BitVec.allOnes 64 >>> c) <<< c :=
    (ht.2 _).symm.trans (hc.2 _)
  have hbit := congrArg (BitVec.getLsbD · t) hv
  simp only [BitVec.getLsbD_shiftLeft, BitVec.getLsbD_ushiftRight, BitVec.getLsbD_allOnes] at hbit
  simp [h64, hlt] at hbit

theorem Clears.unique {w : Word} {t c : ℕ} (ht : Clears w t) (hc : Clears w c) (ht64 : t < 64)
    (hc64 : c < 64) : t = c :=
  Nat.le_antisymm (Nat.not_lt.mp (hc.not_lt ht hc64)) (Nat.not_lt.mp (ht.not_lt hc ht64))

/-- An alignment is cleared exactly if it is a power of two. -/
theorem clears_trailingZeros_iff {rd : BitVec 5} {align : ℕ} (hlt : align < 2 ^ 64) {w : Word}
    (hw : writeAlignReg .aarch64 (rd.setWidth 64) align = some w) :
    (∃ t, TrailingZeros align t ∧ Clears w t) ↔ ∃ k, align = 2 ^ k := by
  have hpos : 0 < align := by
    by_contra h0
    rw [writeAlignReg, if_pos (by omega)] at hw
    cases hw
  have hclears := clears_log2 hlt hw
  rw [← trailingZeros_log2 hpos]
  refine ⟨?_, fun h => ⟨_, h, hclears⟩⟩
  rintro ⟨t, ht, hw'⟩
  have ht64 : t < 64 := (Nat.pow_lt_pow_iff_right Nat.one_lt_two).mp ((Nat.le_of_dvd hpos ht.1).trans_lt hlt)
  rwa [← hw'.unique hclears ht64 ((Nat.log2_lt hpos.ne').mpr hlt)]

/-- **`ctz` counts trailing zeros** of powers of two only, as long as they have 64 bits: it returns the place
of the highest bit.  Beyond them it returns 63.  The same holds of the mask that `write_align_reg` encodes,
for numbers of 64 bits. -/
theorem ctz_exact_iff {x : ℕ} (hx : 0 < x) :
    (TrailingZeros x (ctzLoop x 0) ↔ x < 2 ^ 64 ∧ (∃ k, x = 2 ^ k) ∨ 2 ^ 64 ≤ x ∧ TrailingZeros x 63) ∧
      ∀ (rd : BitVec 5) (w : Word), x < 2 ^ 64 → writeAlignReg .aarch64 (rd.setWidth 64) x = some w →
        ((∃ t, TrailingZeros x t ∧ Clears w t) ↔ ∃ k, x = 2 ^ k) := by
  refine ⟨?_, fun _ _ hlt hw => clears_trailingZeros_iff hlt hw⟩
  rw [← ctz_eq]
  rcases Nat.lt_or_ge x (2 ^ 64) with hlt | hle
  · rw [ctz_of_lt hlt, trailingZeros_log2 hx]
    refine ⟨fun h => .inl ⟨hlt, h⟩, ?_⟩
    rintro (h | h)
    · exact h.2
    · exact absurd h.1 (not_le.mpr hlt)
  · rw [ctz_of_le hle]
    refine ⟨fun h => .inr ⟨hle, h⟩, ?_⟩
    rintro (h | h)
    · exact absurd h.1 (not_lt.mpr hle)
    · exact h.2

theorem ctz_exact_sixteen :
    TrailingZeros 16 (ctzLoop 16 0) ∧ ∃ t, TrailingZeros 16 t ∧ Clears 0x927cec00#32 t := by
  obtain ⟨hctz, halign⟩ := ctz_exact_iff (show 0 < 16 by decide)
  exact ⟨hctz.mpr (.inl ⟨by decide, 4, rfl⟩), (halign 0 _ (by decide) rfl).mpr ⟨4, rfl⟩⟩

/-- The lowest bit of 6 is not its highest. -/
theorem not_ctz_exact_six : ¬∀ x, 0 < x → TrailingZeros x (ctzLoop x 0) := by
  intro h
  have h6 := h 6 (by decide)
  rw [← ctz_eq] at h6
  exact absurd h6.1 (show ¬2 ^ 2 ∣ 6 by decide)

end Risu.Gen.Arm
