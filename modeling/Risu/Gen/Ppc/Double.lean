import Risu.Gen.Ppc.Emit

/-!
# Constants on 32-bit PowerPC (`risugen_ppc.pm`)

Numbers have no bound here; a mask or a shift sees their two's complement.

* `writeLi32`, `writeStw`, `writeLfd`, `writeLoadDouble` — the words that are written;
* `writeLi32_eq` — for numbers of 64 bits `write_li32` is `write_mov_ri`;
* `run_writeLoadDouble` — the floating-point register gets the pattern.
-/

namespace Risu.Gen.Ppc

open Lib

/-! ### Words -/

/-- The bits of a number that a mask of 64 bits can see. -/
def big (v : ℤ) : BitVec 64 := BitVec.ofInt 64 v

/-- `lis` and `ori`, or `li`. -/
def writeLi32 (register : Reg) (value : ℤ) : List Word :=
  if needsHigh (big value) then
    insn32 ((15#64 <<< 26) ||| (num register <<< 21) ||| (0#64 <<< 16) |||
        (big (value / 2 ^ 16) &&& 0xffff#64)) ::
      if big value &&& 0xffff#64 ≠ 0 then
        [insn32 ((24#64 <<< 26) ||| (num register <<< 21) ||| (num register <<< 16) |||
          (big value &&& 0xffff#64))]
      else []
  else [insn32 ((0xe#64 <<< 26) ||| (num register <<< 21) ||| (big value &&& 0xffff#64))]

/-- `stw rS, offset(r1)` -/
def writeStw (rS : Reg) (offset : ℤ) : List Word :=
  [insn32 ((36#64 <<< 26) ||| (num rS <<< 21) ||| (1#64 <<< 16) ||| big offset)]

/-- `lfd fD, offset(r1)` -/
def writeLfd (fD : Reg) (offset : ℤ) : List Word :=
  [insn32 ((50#64 <<< 26) ||| (num fD <<< 21) ||| (1#64 <<< 16) ||| big offset)]

def availableStackSlot : ℤ := 40

def writeLoadDouble (fD : Reg) (ieeeDouble : ℤ) : List Word :=
  writeLi32 3#5 (ieeeDouble / 2 ^ 32) ++ writeStw 3#5 availableStackSlot ++
    (if ((big ieeeDouble &&& 0xffffffff#64).toNat : ℤ) ≠ ieeeDouble / 2 ^ 32 then
      writeLi32 3#5 ieeeDouble
    else []) ++
    writeStw 3#5 (availableStackSlot + 4) ++ writeLfd fD availableStackSlot

/-! ### What they do -/

theorem uv_eq_big {v : ℤ} (h : -2 ^ 63 ≤ v) (h' : v < 2 ^ 64) : uv v = big v := by
  rw [uv_eq_ofInt h h', big]

theorem big_shift (v : ℤ) : big (v / 2 ^ 16) &&& 0xffff#64 = (big v >>> 16) &&& 0xffff#64 := by
  rw [and_ffff, and_ffff]
  congr 1
  apply BitVec.eq_of_toNat_eq
  rw [BitVec.toNat_setWidth, BitVec.toNat_setWidth, BitVec.toNat_ushiftRight, big, big,
    BitVec.toNat_ofInt, BitVec.toNat_ofInt, Nat.shiftRight_eq_div_pow]
  omega

/-- For numbers of 64 bits `write_li32` is `write_mov_ri`. -/
theorem writeLi32_eq (register : Reg) {v : ℤ} (h : -2 ^ 63 ≤ v) (h' : v < 2 ^ 64) :
    writeLi32 register v = writeMovRi register v := by
  rw [writeLi32, writeMovRi, uv_eq_big h h', big_shift, show 0#64 <<< 16 = 0#64 from rfl,
    BitVec.or_zero]

section run

variable {n : ℕ} (o : Order)

theorem decode_stw (rS : Reg) (d : BitVec 16) :
    decode (insn32 ((36#64 <<< 26) ||| (num rS <<< 21) ||| (1#64 <<< 16) ||| d.setWidth 64)) =
      some (.stw rS 1#5 d) := by
  rw [show 36#64 = (36#6).setWidth 64 from rfl, show 1#64 = num 1#5 from rfl]
  exact decode_dForm (by decide) (by decide) rS 1#5 d

theorem decode_lfd (fD : Reg) (d : BitVec 16) :
    decode (insn32 ((50#64 <<< 26) ||| (num fD <<< 21) ||| (1#64 <<< 16) ||| d.setWidth 64)) =
      some (.lfd fD 1#5 d) := by
  rw [show 50#64 = (50#6).setWidth 64 from rfl, show 1#64 = num 1#5 from rfl]
  exact decode_dForm (by decide) (by decide) fD 1#5 d

theorem big_natCast {k : ℕ} (hk : k < 2 ^ 15) : big k = (BitVec.ofNat 16 k).setWidth 64 := by
  apply BitVec.eq_of_toNat_eq
  rw [big, BitVec.ofInt_natCast, BitVec.toNat_setWidth, BitVec.toNat_ofNat, BitVec.toNat_ofNat]
  omega

theorem run_writeStw (h : 16 ≤ n) (rS : Reg) {k : ℕ} (hk : k < 2 ^ 15) (s : Cpu n) :
    run o (writeStw rS k) s =
      some (s.setMem (store s.mem (s.gpr 1#5 + BitVec.ofNat n k)
        (bytesOf o 4 ((s.gpr rS).setWidth 32).toNat))).next := by
  rw [writeStw, big_natCast hk, run_singleton (decode_stw rS _), exec, signExtend_ofNat h hk]
  rfl

theorem run_writeLfd (h : 16 ≤ n) (fD : Reg) {k : ℕ} (hk : k < 2 ^ 15) (s : Cpu n) :
    run o (writeLfd fD k) s =
      some (s.setFpr fD (BitVec.ofNat 64
        (valueOf o (load s.mem (s.gpr 1#5 + BitVec.ofNat n k) 8)))).next := by
  rw [writeLfd, big_natCast hk, run_singleton (decode_lfd fD _), exec, signExtend_ofNat h hk]
  rfl

/-- What a number of 64 bits leaves in the low half of a register. -/
theorem movValue_toNat (h : 32 ≤ n) {v : ℕ} (hv : v < 2 ^ 64) :
    ((movValue n (uv v)).setWidth 32).toNat = v % 2 ^ 32 := by
  rw [movValue_low h, BitVec.toNat_setWidth, uv_natCast hv, BitVec.toNat_ofNat, Nat.mod_eq_of_lt hv]

/-- A number in register 3, with what is kept. -/
theorem run_li32_three (h : 32 ≤ n) {v : ℕ} (hv : v < 2 ^ 64) (s : Cpu n) :
    ∃ t, run o (writeLi32 3#5 v) s = some t ∧ t.gpr 1#5 = s.gpr 1#5 ∧ t.mem = s.mem ∧
      ((t.gpr 3#5).setWidth 32).toNat = v % 2 ^ 32 := by
  obtain ⟨pc, hrun⟩ := run_writeMovRi o 3#5 v s
  rw [← writeLi32_eq 3#5 (by omega) (by omega)] at hrun
  refine ⟨_, hrun, ?_, rfl, ?_⟩
  · exact Function.update_of_ne (show 1#5 ≠ 3#5 by decide) (movValue n (uv v)) s.gpr
  · show ((Function.update s.gpr 3#5 (movValue n (uv v)) 3#5).setWidth 32).toNat = _
    rw [Function.update_self]
    exact movValue_toNat h hv

/-- The second half of the pattern is put into the register unless it is there already. -/
theorem run_lowHalf (h : 32 ≤ n) (d : BitVec 64) (s : Cpu n)
    (hs : ((s.gpr 3#5).setWidth 32).toNat = d.toNat / 2 ^ 32) :
    ∃ t, run o (if ((big d.toNat &&& 0xffffffff#64).toNat : ℤ) ≠ (d.toNat : ℤ) / 2 ^ 32 then
        writeLi32 3#5 d.toNat else []) s = some t ∧ t.gpr 1#5 = s.gpr 1#5 ∧ t.mem = s.mem ∧
      ((t.gpr 3#5).setWidth 32).toNat = d.toNat % 2 ^ 32 := by
  have hlow : (big d.toNat &&& 0xffffffff#64).toNat = d.toNat % 2 ^ 32 := by
    rw [show 0xffffffff#64 = ones 64 32 from rfl, and_ones, BitVec.toNat_setWidth,
      BitVec.toNat_setWidth, big, BitVec.ofInt_natCast, BitVec.toNat_ofNat]
    omega
  rw [hlow]
  split
  · exact run_li32_three o h d.isLt s
  · refine ⟨s, rfl, rfl, rfl, ?_⟩
    rw [hs]
    omega

/-- **The floating-point register gets the pattern**, on a big-endian host. -/
theorem run_writeLoadDouble (h : 32 ≤ n) (fD : Reg) (d : BitVec 64) (s : Cpu n) :
    ∃ t, run .big (writeLoadDouble fD d.toNat) s = some t ∧ t.fpr fD = d := by
  have hd := d.isLt
  have hpow : 2 ^ 32 ≤ 2 ^ n := Nat.pow_le_pow_right (by decide) h
  have hn : 16 ≤ n := by omega
  have hhigh : (d.toNat : ℤ) / 2 ^ 32 = ((d.toNat / 2 ^ 32 : ℕ) : ℤ) := by simp
  have hcut : d.toNat / 2 ^ 32 % 2 ^ 32 = d.toNat / 2 ^ 32 := by omega
  obtain ⟨s₁, hrun₁, hbase₁, -, hvalue₁⟩ :=
    run_li32_three .big h (show d.toNat / 2 ^ 32 < 2 ^ 64 by omega) s
  rw [hcut] at hvalue₁
  set s₂ := (s₁.setMem (store s₁.mem (s₁.gpr 1#5 + BitVec.ofNat n 40)
    (bytesOf .big 4 ((s₁.gpr 3#5).setWidth 32).toNat))).next with hs₂
  have hrun₂ : run .big (writeStw 3#5 availableStackSlot) s₁ = some s₂ :=
    run_writeStw .big hn 3#5 (show 40 < 2 ^ 15 by decide) s₁
  obtain ⟨s₃, hrun₃, hbase₃, hmem₃, hvalue₃⟩ := run_lowHalf .big h d s₂ hvalue₁
  set s₄ := (s₃.setMem (store s₃.mem (s₃.gpr 1#5 + BitVec.ofNat n 44)
    (bytesOf .big 4 ((s₃.gpr 3#5).setWidth 32).toNat))).next with hs₄
  have hrun₄ : run .big (writeStw 3#5 (availableStackSlot + 4)) s₃ = some s₄ :=
    run_writeStw .big hn 3#5 (show 44 < 2 ^ 15 by decide) s₃
  have hrun₅ : run .big (writeLfd fD availableStackSlot) s₄ = _ :=
    run_writeLfd .big hn fD (show 40 < 2 ^ 15 by decide) s₄
  -- the two halves lie next to each other
  have hbase : s₃.gpr 1#5 = s₁.gpr 1#5 := hbase₃
  have haddr : s₁.gpr 1#5 + BitVec.ofNat n 44 = s₁.gpr 1#5 + BitVec.ofNat n 40 + BitVec.ofNat n 4 := by
    rw [BitVec.add_assoc, ← BitVec.ofNat_add]
  have hmem : s₄.mem = store s₁.mem (s₁.gpr 1#5 + BitVec.ofNat n 40) (bytesOf .big 8 d.toNat) := by
    show store s₃.mem _ _ = _
    rw [hmem₃, hbase, haddr, hvalue₃]
    show store (store s₁.mem _ _) _ _ = _
    rw [hvalue₁]
    have hadjacent := store_store s₁.mem (s₁.gpr 1#5 + BitVec.ofNat n 40)
      (show (bytesOf .big 4 (d.toNat / 2 ^ 32)).length + (bytesOf .big 4 (d.toNat % 2 ^ 32)).length <
        2 ^ n by rw [bytesOf_length, bytesOf_length]; omega)
    rw [bytesOf_length] at hadjacent
    rw [hadjacent, bytesOf_big_add 4 4]
    rfl
  have hload : load s₄.mem (s₄.gpr 1#5 + BitVec.ofNat n 40) 8 = bytesOf .big 8 d.toNat := by
    have hloaded := load_store s₁.mem (s₁.gpr 1#5 + BitVec.ofNat n 40)
      (show (bytesOf .big 8 d.toNat).length ≤ 2 ^ n by rw [bytesOf_length]; omega)
    rw [bytesOf_length] at hloaded
    rw [hmem, show s₄.gpr 1#5 = s₁.gpr 1#5 from hbase, hloaded]
  refine ⟨_, run_append (run_append (run_append (run_append (hhigh ▸ hrun₁) hrun₂) hrun₃) hrun₄)
    hrun₅, ?_⟩
  show Function.update s₄.fpr fD _ fD = d
  rw [Function.update_self, hload]
  exact ofNat_valueOf_bytesOf .big 8 d

end run

end Risu.Gen.Ppc
