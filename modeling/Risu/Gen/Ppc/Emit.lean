import Risu.Gen.Ppc.Machine

/-!
# Code around the instruction under test (`risugen_ppc64.pm`)

* `writeAddRi`, `writeSubfR`, `writeMovRi` — the words that are written;
* `movValue` — what `write_mov_ri` leaves in the register;
* `run_writeAddRi`, `run_writeSubfR`, `run_writeMovRi` — what the words do;
* `movValue_low` — the low 32 bits are those of the number.
-/

namespace Risu.Gen.Ppc

open Lib

/-! ### Words -/

/-- `addi rt, ra, imm` -/
def writeAddRi (rt ra : Reg) (imm : ℤ) : List Word :=
  [insn32 ((0xe#64 <<< 26) ||| (num rt <<< 21) ||| (num ra <<< 16) ||| (uv imm &&& 0xffff#64))]

/-- `subf rt, ra, rb` -/
def writeSubfR (rt ra rb : Reg) : List Word :=
  [insn32 ((31#64 <<< 26) ||| (num rt <<< 21) ||| (num ra <<< 16) ||| (num rb <<< 11) |||
    (40#64 <<< 1))]

/-- The number does not fit the 16 bits of `li`, seen as 32 bits. -/
def needsHigh (x : BitVec 64) : Prop :=
  x &&& 0xffff8000#64 ≠ 0 ∧ x &&& 0xffff8000#64 ≠ 0xffff8000#64

instance (x : BitVec 64) : Decidable (needsHigh x) := inferInstanceAs (Decidable (_ ∧ _))

/-- `lis` and `ori`, or `li`. -/
def writeMovRi (rd : Reg) (imm : ℤ) : List Word :=
  if needsHigh (uv imm) then
    insn32 ((0xf#64 <<< 26) ||| (num rd <<< 21) ||| ((uv imm >>> 16) &&& 0xffff#64)) ::
      if uv imm &&& 0xffff#64 ≠ 0 then
        [insn32 ((0x18#64 <<< 26) ||| (num rd <<< 21) ||| (num rd <<< 16) |||
          (uv imm &&& 0xffff#64))]
      else []
  else [insn32 ((0xe#64 <<< 26) ||| (num rd <<< 21) ||| (uv imm &&& 0xffff#64))]

/-- `mtctr rs` and its like, by the number of the special purpose register. -/
def mtspr (spr : BitVec 64) (rs : Reg) : Word :=
  insn32 ((31#64 <<< 26) ||| (num rs <<< 21) ||| ((spr &&& 31#64) <<< 16) |||
    ((spr >>> 5) <<< 11) ||| (467#64 <<< 1))

/-- `mfctr rt` and its like -/
def mfspr (spr : BitVec 64) (rt : Reg) : Word :=
  insn32 ((31#64 <<< 26) ||| (num rt <<< 21) ||| ((spr &&& 31#64) <<< 16) |||
    ((spr >>> 5) <<< 11) ||| (339#64 <<< 1))

/-! ### What they do -/

section run

variable {n : ℕ} (o : Order)

theorem decode_addi (rt ra : Reg) (x : BitVec 64) :
    decode (insn32 ((0xe#64 <<< 26) ||| (num rt <<< 21) ||| (num ra <<< 16) ||| (x &&& 0xffff#64))) =
      some (.addi rt ra (x.setWidth 16)) := by
  rw [and_ffff, show 0xe#64 = (14#6).setWidth 64 from rfl]
  exact decode_dForm (by decide) (by decide) rt ra _

theorem decode_ori (ra rs : Reg) (x : BitVec 64) :
    decode (insn32 ((0x18#64 <<< 26) ||| (num rs <<< 21) ||| (num ra <<< 16) ||| (x &&& 0xffff#64))) =
      some (.ori ra rs (x.setWidth 16)) := by
  rw [and_ffff, show 0x18#64 = (24#6).setWidth 64 from rfl]
  exact decode_dForm (by decide) (by decide) rs ra _

/-- A word without the field of a base register has register 0 there. -/
theorem or_num_zero (x y : BitVec 64) : x ||| y = x ||| (num 0#5 <<< 16) ||| y := by
  rw [show num 0#5 <<< 16 = 0#64 from rfl, BitVec.or_zero]

theorem decode_li (rt : Reg) (x : BitVec 64) :
    decode (insn32 ((0xe#64 <<< 26) ||| (num rt <<< 21) ||| (x &&& 0xffff#64))) =
      some (.addi rt 0#5 (x.setWidth 16)) := by
  rw [or_num_zero]
  exact decode_addi rt 0#5 x

theorem decode_lis (rt : Reg) (x : BitVec 64) :
    decode (insn32 ((0xf#64 <<< 26) ||| (num rt <<< 21) ||| (x &&& 0xffff#64))) =
      some (.addis rt 0#5 (x.setWidth 16)) := by
  rw [or_num_zero, and_ffff, show 0xf#64 = (15#6).setWidth 64 from rfl]
  exact decode_dForm (by decide) (by decide) rt 0#5 _

theorem decode_subf (rt ra rb : Reg) :
    decode (insn32 ((31#64 <<< 26) ||| (num rt <<< 21) ||| (num ra <<< 16) ||| (num rb <<< 11) |||
      (40#64 <<< 1))) = some (.subf rt ra rb) := by
  rw [show 31#64 = (31#6).setWidth 64 from rfl, show 40#64 = (40#10).setWidth 64 from rfl]
  exact decode_xForm rt ra rb 40#10

/-- The number of a special purpose register, in two halves. -/
theorem decode_mtspr {k : BitVec 64} {lo hi : BitVec 5} {spr : Spr} (hlo : k &&& 31#64 = num lo)
    (hhi : k >>> 5 = num hi) (hspr : sprOf lo hi = some spr) (rs : Reg) :
    decode (mtspr k rs) = some (.mtspr spr rs) := by
  rw [mtspr, hlo, hhi]
  exact (decode_xForm rs lo hi 467#10).trans (by rw [decodeX, hspr]; rfl)

theorem decode_mfspr {k : BitVec 64} {lo hi : BitVec 5} {spr : Spr} (hlo : k &&& 31#64 = num lo)
    (hhi : k >>> 5 = num hi) (hspr : sprOf lo hi = some spr) (rt : Reg) :
    decode (mfspr k rt) = some (.mfspr rt spr) := by
  rw [mfspr, hlo, hhi]
  exact (decode_xForm rt lo hi 339#10).trans (by rw [decodeX, hspr]; rfl)

/-- A displacement without sign. -/
theorem signExtend_ofNat (h : 16 ≤ n) {k : ℕ} (hk : k < 2 ^ 15) :
    (BitVec.ofNat 16 k).signExtend n = BitVec.ofNat n k := by
  have hmsb : (BitVec.ofNat 16 k).msb = false := by
    rw [BitVec.msb_eq_decide, BitVec.toNat_ofNat, decide_eq_false_iff_not]
    omega
  have hlt : k < 2 ^ n := lt_of_lt_of_le hk (Nat.pow_le_pow_right (by decide) (by omega))
  rw [BitVec.signExtend_eq_setWidth_of_msb_false hmsb]
  apply BitVec.eq_of_toNat_eq
  rw [BitVec.toNat_setWidth, BitVec.toNat_ofNat, BitVec.toNat_ofNat,
    Nat.mod_eq_of_lt (show k < 2 ^ 16 by omega)]

theorem run_writeAddRi (rt ra : Reg) (imm : ℤ) (s : Cpu n) :
    run o (writeAddRi rt ra imm) s =
      some (s.setGpr rt (s.base ra + ((uv imm).setWidth 16).signExtend n)).next :=
  run_singleton (decode_addi rt ra _) o s

theorem run_writeSubfR (rt ra rb : Reg) (s : Cpu n) :
    run o (writeSubfR rt ra rb) s = some (s.setGpr rt (s.gpr rb - s.gpr ra)).next :=
  run_singleton (decode_subf rt ra rb) o s

/-- What is left in the register. -/
def movValue (n : ℕ) (x : BitVec 64) : BitVec n :=
  if needsHigh x then
    ((x >>> 16).setWidth 16 ++ 0#16).signExtend n ||| (x.setWidth 16).setWidth n
  else (x.setWidth 16).signExtend n

theorem Cpu.base_zero (s : Cpu n) : s.base 0#5 = 0#n := rfl

theorem run_writeMovRi (rd : Reg) (imm : ℤ) (s : Cpu n) :
    ∃ pc, run o (writeMovRi rd imm) s =
      some { s with pc := pc, gpr := Function.update s.gpr rd (movValue n (uv imm)) } := by
  rw [writeMovRi, movValue]
  by_cases hhigh : needsHigh (uv imm)
  · rw [if_pos hhigh, if_pos hhigh, run_cons (decode_lis rd _)]
    by_cases hlow : uv imm &&& 0xffff#64 = 0
    · have hzero : (uv imm).setWidth 16 = 0#16 := by
        have := congrArg (BitVec.setWidth 16) hlow
        rwa [and_ffff, BitVec.setWidth_setWidth_of_le _ (by decide), BitVec.setWidth_eq] at this
      refine ⟨s.pc + 4, ?_⟩
      rw [if_neg (not_not.mpr hlow), hzero]
      simp [run, exec, Cpu.base_zero, Cpu.setGpr, Cpu.next]
    · refine ⟨s.pc + 4 + 4, ?_⟩
      rw [if_pos hlow, run_singleton (decode_ori rd rd _)]
      simp [exec, Cpu.base_zero, Cpu.setGpr, Cpu.next]
  · rw [if_neg hhigh, if_neg hhigh, run_singleton (decode_li rd _)]
    refine ⟨s.pc + 4, ?_⟩
    simp [exec, Cpu.base_zero, Cpu.setGpr, Cpu.next]

/-- The bits of the mask that decides between the two forms. -/
theorem getLsbD_ffff8000 {i : ℕ} (hi : i < 64) :
    (0xffff8000#64).getLsbD i = decide (15 ≤ i ∧ i < 32) := by
  have h := getLsbD_ones_shiftLeft (n := 64) 15 17 i
  rw [show ones 64 17 <<< 15 = 0xffff8000#64 from rfl] at h
  rw [h, decide_eq_true hi, Bool.true_and]
  exact decide_eq_decide.mpr Iff.rfl

/-- If `li` is enough, bits 15 to 31 are equal. -/
theorem getLsbD_of_not_needsHigh {x : BitVec 64} (h : ¬needsHigh x) {i : ℕ} (hi : 15 ≤ i)
    (hi' : i < 32) : x.getLsbD i = x.getLsbD 15 := by
  have hbit : ∀ y : BitVec 64, x &&& 0xffff8000#64 = y → x.getLsbD i = y.getLsbD i ∧
      x.getLsbD 15 = y.getLsbD 15 := by
    rintro y rfl
    rw [BitVec.getLsbD_and, BitVec.getLsbD_and, getLsbD_ffff8000 (by omega),
      getLsbD_ffff8000 (by omega)]
    simp [hi, hi']
  rw [needsHigh, not_and_or, not_not, not_not] at h
  rcases h with h | h
  · obtain ⟨h₁, h₂⟩ := hbit _ h
    rw [h₁, h₂]
    simp
  · obtain ⟨h₁, h₂⟩ := hbit _ h
    rw [h₁, h₂, getLsbD_ffff8000 (by omega), getLsbD_ffff8000 (by omega)]
    simp [hi, hi']

/-- **The low 32 bits are those of the number.** -/
theorem movValue_low (h : 32 ≤ n) (x : BitVec 64) : (movValue n x).setWidth 32 = x.setWidth 32 := by
  apply BitVec.eq_of_getLsbD_eq
  intro i hi
  rw [BitVec.getLsbD_setWidth, BitVec.getLsbD_setWidth, movValue]
  have hn : i < n := by omega
  split
  · rw [BitVec.getLsbD_or, BitVec.getLsbD_signExtend, BitVec.getLsbD_append]
    by_cases hlow : i < 16
    · simp [hi, hn, hlow]
    · have hsub : 16 + (i - 16) = i := by omega
      have hlt : i - 16 < 16 := by omega
      simp [hi, hn, hlow, hsub, hlt]
  · rename_i hfits
    rw [BitVec.getLsbD_signExtend]
    by_cases hlow : i < 16
    · simp [hi, hn, hlow]
    · have := getLsbD_of_not_needsHigh hfits (i := i) (by omega) hi
      simp [hi, hn, hlow, this, BitVec.msb_eq_getLsbD_last]

end run

end Risu.Gen.Ppc
