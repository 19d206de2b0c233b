import Mathlib.Tactic.Linarith
import Risu.Gen.Arm.Address

/-!
# Addressing modes by the length of vectors (`reg_plus_imm_pl`, `reg_plus_imm_vl`)

* `does_writeAddplRri` and so on — the writers for A64;
* `regPlusImmPl_setsUp`, `regPlusImmVl_setsUp` — the two forms, with vectors of any length;
* `addresses_exact` — all the addressing modes set up an address.
-/

namespace Risu.Gen.Arm

open Lib

/-! ### The writers for A64 -/

/-- An immediate of six bits. -/
theorem uv_imm6 {imm : ℤ} (h : -32 ≤ imm) (h' : imm ≤ 31) :
    uv imm &&& 0x3f#64 = (BitVec.ofInt 6 imm).setWidth 64 ∧ (BitVec.ofInt 6 imm).toInt = imm := by
  rw [uv_eq_ofInt (by omega) (by omega)]
  obtain ⟨n, hn⟩ : ∃ n : Fin 64, imm = (n.val : ℤ) - 32 := ⟨⟨(imm + 32).toNat, by omega⟩, by
    show imm = ((imm + 32).toNat : ℤ) - 32
    omega⟩
  subst hn
  clear h h'
  revert n
  decide +kernel

/-- Code of A64 with an effect that the memory block has no part in. -/
def DoesA64 (vl : ℕ) (code : List Code) (f : RegsA64 → RegsA64) : Prop :=
  ∀ block regs, run64 vl block code regs = some (f regs)

theorem DoesA64.append {vl : ℕ} {c d : List Code} {f g : RegsA64 → RegsA64} (hc : DoesA64 vl c f)
    (hd : DoesA64 vl d g) : DoesA64 vl (c ++ d) fun regs => g (f regs) :=
  fun block regs => (run64_append (hc block regs) d).trans (hd block (f regs))

section

variable (vl : ℕ) {rd rn rm ra : BitVec 5}

theorem doesA64_writeMovRi (hrd : rd ≠ 31) {imm : ℤ} (h : -2 ^ 31 ≤ imm) (h' : imm < 2 ^ 32) :
    ∃ code, writeMovRi .aarch64 (rd.setWidth 64) imm = some code ∧
      DoesA64 vl code fun regs => Function.update regs rd (BitVec.ofInt 64 imm) :=
  (isa64 vl).run_writeMovRi hrd h h'

theorem does_writeAddplRri (hrd : rd ≠ 31#5) (hrn : rn ≠ 31#5) {imm : ℤ} (h : -32 ≤ imm)
    (h' : imm ≤ 31) : ∃ code,
      writeAddplRri .aarch64 (rd.setWidth 64) (rn.setWidth 64) imm = some code ∧
        DoesA64 vl code fun regs =>
          Function.update regs rd (regs rn + BitVec.ofInt 64 (imm * (vl / 8 : ℕ))) := by
  obtain ⟨hbits, hint⟩ := uv_imm6 h h'
  have hrun := fun block regs => run64_single vl block regs
    (decodeWordA64_addvl hrd hrn (BitVec.ofInt 6 imm) true)
  simp only [if_true, InsnA64.exec, setA64_of_ne _ hrd, getA64_of_ne _ hrn, hint, ← hbits] at hrun
  exact ⟨_, if_pos rfl, hrun⟩

theorem does_writeAddvlRri (hrd : rd ≠ 31#5) (hrn : rn ≠ 31#5) {imm : ℤ} (h : -32 ≤ imm)
    (h' : imm ≤ 31) : ∃ code,
      writeAddvlRri .aarch64 (rd.setWidth 64) (rn.setWidth 64) imm = some code ∧
        DoesA64 vl code fun regs =>
          Function.update regs rd (regs rn + BitVec.ofInt 64 (imm * vl)) := by
  obtain ⟨hbits, hint⟩ := uv_imm6 h h'
  have hrun := fun block regs => run64_single vl block regs
    (decodeWordA64_addvl hrd hrn (BitVec.ofInt 6 imm) false)
  simp only [Bool.false_eq_true, if_false, InsnA64.exec, setA64_of_ne _ hrd, getA64_of_ne _ hrn, hint,
    ← hbits] at hrun
  exact ⟨_, if_pos rfl, hrun⟩

theorem does_writeRdvlRi (hrd : rd ≠ 31#5) {imm : ℤ} (h : -32 ≤ imm) (h' : imm ≤ 31) : ∃ code,
    writeRdvlRi .aarch64 (rd.setWidth 64) imm = some code ∧
      DoesA64 vl code fun regs =>
        Function.update regs rd (BitVec.ofInt 64 (imm * vl)) := by
  obtain ⟨hbits, hint⟩ := uv_imm6 h h'
  have hrun := fun block regs => run64_single vl block regs
    (decodeWordA64_rdvl rd (BitVec.ofInt 6 imm))
  simp only [InsnA64.exec, setA64_of_ne _ hrd, hint, ← hbits] at hrun
  exact ⟨_, if_pos rfl, hrun⟩

theorem does_writeMsubRrrr (hrd : rd ≠ 31) (hrn : rn ≠ 31) (hrm : rm ≠ 31) (hra : ra ≠ 31) :
    ∃ code, writeMsubRrrr .aarch64 (rd.setWidth 64) (rn.setWidth 64) (rm.setWidth 64)
        (ra.setWidth 64) = some code ∧
      DoesA64 vl code fun regs =>
        Function.update regs rd (regs ra - regs rn * regs rm) := by
  have hrun := fun block regs => run64_single vl block regs (decodeWordA64_mul rd rn rm ra true)
  simp only [if_true, InsnA64.exec, setA64_of_ne _ hrd, getA64_of_ne _ hrn, getA64_of_ne _ hrm,
    getA64_of_ne _ hra] at hrun
  exact ⟨_, if_pos rfl, hrun⟩

theorem does_writeMulRrr (hrd : rd ≠ 31) (hrn : rn ≠ 31) (hrm : rm ≠ 31) :
    ∃ code, writeMulRrr .aarch64 (rd.setWidth 64) (rn.setWidth 64) (rm.setWidth 64) = some code ∧
      DoesA64 vl code fun regs =>
        Function.update regs rd (regs rn * regs rm) := by
  have hzero (regs : RegsA64) : getA64 regs 31 = 0#64 := if_pos rfl
  have hrun := fun block regs => run64_single vl block regs (decodeWordA64_mul rd rn rm 31 false)
  simp only [Bool.false_eq_true, if_false, InsnA64.exec, setA64_of_ne _ hrd, getA64_of_ne _ hrn,
    getA64_of_ne _ hrm, hzero, BitVec.zero_add] at hrun
  exact ⟨_, rfl, hrun⟩

/-- A subtraction with a shift to the right; without one it is a shift to the left. -/
theorem does_writeSubRrrs_asr (hrd : rd ≠ 31) (hrn : rn ≠ 31) (hrm : rm ≠ 31) {scale : ℕ}
    (hs : scale < 64) : ∃ code,
      writeSubRrrs .aarch64 (rd.setWidth 64) (rn.setWidth 64) (rm.setWidth 64) .asr scale =
        some code ∧
      DoesA64 vl code fun regs =>
        Function.update regs rd (regs rn - (regs rm).sshiftRight scale) := by
  have hbits : (scale : ℤ) < Mode.aarch64.bits := by
    show (scale : ℤ) < 64
    omega
  refine ⟨_, writeSubRrrs_of_lt hbits _ _ _ _, ?_⟩
  have hshift : uv (scale : ℤ) = (BitVec.ofNat 6 scale).setWidth 64 := uv_shift (by decide) hs
  have hrun := fun block regs =>
    run64_subRrrsCode vl block regs hrd hrn rm (decide (scale ≠ 0)) (BitVec.ofNat 6 scale)
  simp only [← hshift, BitVec.toNat_ofNat, Nat.mod_eq_of_lt hs, getA64_of_ne _ hrm] at hrun
  by_cases h0 : scale = 0
  · subst h0
    simpa only [DoesA64, ne_eq, not_true_eq_false, decide_false, Bool.false_eq_true, if_false, if_true,
      BitVec.shiftLeft_zero, BitVec.sshiftRight_zero] using hrun
  · simpa only [DoesA64, ne_eq, h0, not_false_eq_true, decide_true, if_true, if_false] using hrun

end

/-! ### The two forms -/

theorem SetsUp.mono {I : Isa} {a : Align} {code : List Code} {ea : I.Regs → BitVec I.w}
    {kept tainted tainted' : Set (BitVec I.k)} (h : SetsUp I a code ea kept tainted)
    (hsub : tainted ⊆ tainted') : SetsUp I a code ea kept tainted' := by
  obtain ⟨f, hdoes, hf⟩ := h
  refine ⟨f, hdoes, fun regs => ?_⟩
  obtain ⟨offset, hlow, hhigh, hdvd, hblock⟩ := hf regs
  refine ⟨offset, hlow, hhigh, hdvd, fun block => ⟨(hblock block).1, (hblock block).2.1, ?_⟩⟩
  intro block' r hr
  exact (hblock block).2.2 block' r fun hmem => hr (hsub hmem)

section

variable {vl : ℕ} {a : Align} {draw : Fin (2048 - 512)} {base : BitVec 5}

/-- Code behind `write_get_offset`, from the address in `x0`. -/
theorem setsUp_of_get {get code : List Code} {f : RegsA64 → RegsA64} {ea : RegsA64 → BitVec 64}
    {tainted : Set (BitVec 5)} (hget : writeGetOffset .aarch64 a draw = some get)
    (hcode : DoesA64 vl code f) (hea : ∀ v regs, ea (f (Function.update regs 0#5 v)) = v)
    (htaint : ∀ v v' regs, ∀ r ∉ tainted,
      f (Function.update regs 0#5 v) r = f (Function.update regs 0#5 v') r) :
    SetsUp (isa64 vl) a (get ++ code) ea ∅ tainted := by
  obtain ⟨get', hget', hdoes⟩ := @Isa.does_writeGetOffset (isa64 vl) a draw
  obtain rfl : get = get' := Option.some.inj (hget.symm.trans hget')
  have hdoes' : (isa64 vl).Does code fun _ regs => f regs := hcode
  refine SetsUp.intro draw (hdoes.append hdoes') ?_ ?_ ?_
  · exact fun block regs => hea _ regs
  · exact fun _ _ i hi => absurd hi (Set.notMem_empty i)
  · exact fun block block' regs r hr => htaint _ _ regs r hr

/-- `reg`, as a form with no immediate. -/
theorem reg_setsUp_zero (hb : base ≠ 31#5) (trashed : List (BitVec 64)) :
    ∃ code, reg .aarch64 a draw (base.setWidth 64) trashed =
        some (code, baseOr (base.setWidth 64) trashed) ∧
      SetsUp (isa64 vl) a code (fun (regs : RegsA64) => regs base + BitVec.ofInt 64 0) ∅ {base, 0#5} := by
  obtain ⟨code, hcode, hup⟩ := @reg_setsUp (isa64 vl) a draw base hb trashed
  refine ⟨code, hcode, ?_⟩
  rw [BitVec.ofInt_ofNat]
  simp only [BitVec.add_zero]
  exact hup.mono (show ({base} : Set (BitVec 5)) ⊆ {base, 0#5} by simp)

/-! The numbers of the registers that the code uses. -/

theorem setWidth_r0 : (0#5).setWidth 64 = (0 : BitVec 64) := rfl

theorem setWidth_r1 : (1#5).setWidth 64 = (1 : BitVec 64) := rfl

theorem setWidth_r2 : (2#5).setWidth 64 = (2 : BitVec 64) := rfl

/-- `reg_plus_imm_pl` -/
theorem regPlusImmPl_setsUp (hb : base ≠ 31#5) {imm : ℤ} (h : -2 ^ 31 ≤ imm) (h' : imm < 2 ^ 31)
    (trashed : List (BitVec 64)) :
    ∃ code, regPlusImmPl .aarch64 a draw (base.setWidth 64) imm trashed =
        some (code, baseOr (base.setWidth 64) trashed) ∧
      SetsUp (isa64 vl) a code
        (fun (regs : RegsA64) => regs base + BitVec.ofInt 64 (imm * (vl / 8 : ℕ))) ∅ {base, 0#5} := by
  by_cases himm : imm = 0
  · subst himm
    obtain ⟨code, hcode, hup⟩ := @reg_setsUp_zero vl a draw base hb trashed
    refine ⟨code, (if_pos rfl).trans hcode, ?_⟩
    rwa [zero_mul]
  obtain ⟨get, hget, -⟩ := @Isa.does_writeGetOffset (isa64 vl) a draw
  have hget' : writeGetOffset .aarch64 a draw = some get := hget
  by_cases hsmall : -32 ≤ -imm ∧ -imm ≤ 31
  · obtain ⟨addpl, haddpl, hdoes⟩ :=
      does_writeAddplRri vl hb (show 0#5 ≠ 31#5 by decide) hsmall.1 hsmall.2
    refine ⟨get ++ addpl, ?_, setsUp_of_get hget' hdoes ?_ ?_⟩
    · rw [setWidth_r0] at haddpl
      simp only [regPlusImmPl, if_neg himm, hget', if_pos hsmall, haddpl]
      rfl
    · intro v regs
      rw [Function.update_self, Function.update_self, neg_mul, BitVec.ofInt_neg, ← BitVec.sub_eq_add_neg]
      exact BitVec.sub_add_cancel _ _
    · intro v v' regs r hr
      obtain ⟨hrb, hr0⟩ : r ≠ base ∧ r ≠ 0#5 := not_or.mp hr
      simp only [Function.update_of_ne hrb, Function.update_of_ne hr0]
  · obtain ⟨zero, hzero, hdoes⟩ := doesA64_writeMovRi vl (show 1#5 ≠ 31 by decide)
      (show -2 ^ 31 ≤ (0 : ℤ) by decide) (by decide)
    obtain ⟨mov, hmov, hdoes'⟩ := doesA64_writeMovRi vl (show 2#5 ≠ 31 by decide) h (by omega)
    obtain ⟨addpl, haddpl, hadd⟩ := does_writeAddplRri vl (show 1#5 ≠ 31#5 by decide)
      (show 1#5 ≠ 31#5 by decide) (show -32 ≤ (1 : ℤ) by decide) (by decide)
    obtain ⟨msub, hmsub, hmul⟩ := does_writeMsubRrrr vl hb (show 1#5 ≠ 31 by decide)
      (show 2#5 ≠ 31 by decide) (show 0#5 ≠ 31 by decide)
    refine ⟨get ++ (zero ++ (mov ++ (addpl ++ msub))), ?_,
      setsUp_of_get hget' (hdoes.append (hdoes'.append (hadd.append hmul))) ?_ ?_⟩
    · rw [setWidth_r1] at hzero haddpl
      rw [setWidth_r2] at hmov
      rw [setWidth_r0, setWidth_r1, setWidth_r2] at hmsub
      simp only [regPlusImmPl, if_neg himm, hget', if_neg hsmall, hzero, hmov, haddpl, hmsub]
      rfl
    · intro v regs
      have hval : v - BitVec.ofInt 64 (vl / 8 : ℕ) * BitVec.ofInt 64 imm +
          BitVec.ofInt 64 (imm * (vl / 8 : ℕ)) = v := by
        rw [mul_comm imm, BitVec.ofInt_mul]
        exact BitVec.sub_add_cancel _ _
      simpa [Function.update_apply] using hval
    · intro v v' regs r hr
      obtain ⟨hrb, hr0⟩ : r ≠ base ∧ r ≠ 0#5 := not_or.mp hr
      simp [Function.update_apply, hrb, hr0]

/-- The bytes of vectors, shifted as a register is. -/
theorem ofInt_sshiftRight {imm : ℤ} (h : -2 ^ 31 ≤ imm) (h' : imm < 2 ^ 31) (hvl : vl ≤ 256)
    (scale : ℕ) :
    (BitVec.ofInt 64 (imm * vl)).sshiftRight scale = BitVec.ofInt 64 ((imm * vl) >>> scale) := by
  have hvl' : (vl : ℤ) ≤ 256 := by exact_mod_cast hvl
  have hlow : -2 ^ 63 ≤ imm * vl := by nlinarith
  have hhigh : imm * vl < 2 ^ 63 := by nlinarith
  rw [BitVec.sshiftRight_eq, BitVec.toInt_ofInt_eq_self (by decide) hlow hhigh]

/-- A quotient without a remainder. -/
theorem shiftRight_of_div {imm q : ℤ} {scale : ℕ} (h : imm = q * 2 ^ scale) :
    (imm * vl) >>> scale = q * vl := by
  rw [Int.shiftRight_eq_div_pow, h, mul_right_comm]
  push_cast
  exact Int.mul_ediv_cancel _ (by positivity)

/-- `$mul`, where a quotient by it has no remainder. -/
theorem eq_mul_two_pow {imm q : ℤ} {scale : ℕ} (h : -2 ^ 31 ≤ imm) (h' : imm < 2 ^ 31) (hs : scale < 64)
    (hq : imm = q * vlMul scale) : imm = q * 2 ^ scale := by
  by_cases h63 : scale = 63
  · subst h63
    have hmul : vlMul (63 : ℕ) = -2 ^ 63 := by decide
    rw [hmul] at hq
    omega
  · have hmul : vlMul scale = 2 ^ scale := by
      have hlt : scale < 63 := by omega
      clear hq hs h63
      interval_cases scale <;> rfl
    rwa [hmul] at hq

theorem vlMul_ne_zero {scale : ℕ} (hs : scale < 64) : vlMul scale ≠ 0 := by
  interval_cases scale <;> decide

/-! The three ways of `reg_plus_imm_vl`. -/

section

variable {imm : ℤ} {scale : ℕ}

/-- What `reg_plus_imm_vl` is to do. -/
abbrev VlSetsUp (vl : ℕ) (a : Align) (draw : Fin (2048 - 512)) (base : BitVec 5) (imm scale : ℤ)
    (trashed : List (BitVec 64)) : Prop :=
  ∃ code, regPlusImmVl .aarch64 a draw (base.setWidth 64) imm scale trashed =
      some (code, baseOr (base.setWidth 64) trashed) ∧
    SetsUp (isa64 vl) a code
      (fun (regs : RegsA64) => regs base + BitVec.ofInt 64 ((imm * vl) >>> scale.toNat)) ∅ {base, 0#5}

variable (hb : base ≠ 31#5) (h : -2 ^ 31 ≤ imm) (h' : imm < 2 ^ 31) (h0 : imm ≠ 0) (hs : scale < 64)

include hb h h' h0 hs

/-- With `addvl`. -/
theorem regPlusImmVl_addvl
    (hdiv : imm = imm.tdiv (vlMul scale) * vlMul scale ∧
      -32 ≤ -imm.tdiv (vlMul scale) ∧ -imm.tdiv (vlMul scale) ≤ 31)
    (trashed : List (BitVec 64)) : VlSetsUp vl a draw base imm scale trashed := by
  obtain ⟨get, hget, -⟩ := @Isa.does_writeGetOffset (isa64 vl) a draw
  have hget' : writeGetOffset .aarch64 a draw = some get := hget
  obtain ⟨addvl, haddvl, hdoes⟩ :=
    does_writeAddvlRri vl hb (show 0#5 ≠ 31#5 by decide) hdiv.2.1 hdiv.2.2
  refine ⟨get ++ addvl, ?_, setsUp_of_get hget' hdoes ?_ ?_⟩
  · rw [setWidth_r0] at haddvl
    simp only [regPlusImmVl, if_neg h0, hget', if_neg (vlMul_ne_zero hs), if_pos hdiv,
      haddvl]
    rfl
  · intro v regs
    rw [Function.update_self, Function.update_self, neg_mul, BitVec.ofInt_neg, ← BitVec.sub_eq_add_neg,
      Int.toNat_natCast, shiftRight_of_div (eq_mul_two_pow h h' hs hdiv.1)]
    exact BitVec.sub_add_cancel _ _
  · intro v v' regs r hr
    obtain ⟨hrb, hr0⟩ : r ≠ base ∧ r ≠ 0#5 := not_or.mp hr
    simp only [Function.update_of_ne hrb, Function.update_of_ne hr0]

/-- With `rdvl` of the immediate. -/
theorem regPlusImmVl_rdvl (hvl : vl ≤ 256)
    (hdiv : ¬(imm = imm.tdiv (vlMul scale) * vlMul scale ∧
      -32 ≤ -imm.tdiv (vlMul scale) ∧ -imm.tdiv (vlMul scale) ≤ 31))
    (hsmall : -32 ≤ imm ∧ imm ≤ 31) (trashed : List (BitVec 64)) :
    VlSetsUp vl a draw base imm scale trashed := by
  obtain ⟨get, hget, -⟩ := @Isa.does_writeGetOffset (isa64 vl) a draw
  have hget' : writeGetOffset .aarch64 a draw = some get := hget
  obtain ⟨rdvl, hrdvl, hdoes⟩ := does_writeRdvlRi vl (show 1#5 ≠ 31#5 by decide) hsmall.1 hsmall.2
  obtain ⟨sub, hsub, hdoes'⟩ := does_writeSubRrrs_asr vl hb (show 0#5 ≠ 31 by decide)
    (show 1#5 ≠ 31 by decide) hs
  refine ⟨get ++ (rdvl ++ sub), ?_, setsUp_of_get hget' (hdoes.append hdoes') ?_ ?_⟩
  · rw [setWidth_r1] at hrdvl
    rw [setWidth_r0, setWidth_r1] at hsub
    simp only [regPlusImmVl, if_neg h0, hget', if_neg (vlMul_ne_zero hs), if_neg hdiv,
      if_pos hsmall, hrdvl, hsub]
    rfl
  · intro v regs
    have h01 : (0#5 : BitVec 5) ≠ 1#5 := by decide
    rw [Function.update_self, Function.update_of_ne h01, Function.update_self, Function.update_self,
      ofInt_sshiftRight h h' hvl, Int.toNat_natCast]
    exact BitVec.sub_add_cancel _ _
  · intro v v' regs r hr
    obtain ⟨hrb, hr0⟩ : r ≠ base ∧ r ≠ 0#5 := not_or.mp hr
    simp [Function.update_apply, hrb, hr0]

/-- With a product. -/
theorem regPlusImmVl_mul (hvl : vl ≤ 256)
    (hdiv : ¬(imm = imm.tdiv (vlMul scale) * vlMul scale ∧
      -32 ≤ -imm.tdiv (vlMul scale) ∧ -imm.tdiv (vlMul scale) ≤ 31))
    (hsmall : ¬(-32 ≤ imm ∧ imm ≤ 31)) (trashed : List (BitVec 64)) :
    VlSetsUp vl a draw base imm scale trashed := by
  obtain ⟨get, hget, -⟩ := @Isa.does_writeGetOffset (isa64 vl) a draw
  have hget' : writeGetOffset .aarch64 a draw = some get := hget
  obtain ⟨rdvl, hrdvl, hdoes⟩ := does_writeRdvlRi vl (show 1#5 ≠ 31#5 by decide)
    (show -32 ≤ (1 : ℤ) by decide) (by decide)
  obtain ⟨mov, hmov, hdoes'⟩ := doesA64_writeMovRi vl (show 2#5 ≠ 31 by decide) h (by omega)
  rw [setWidth_r1] at hrdvl
  rw [setWidth_r2] at hmov
  by_cases hscale : scale = 0
  · subst hscale
    obtain ⟨msub, hmsub, hmul⟩ := does_writeMsubRrrr vl hb (show 1#5 ≠ 31 by decide)
      (show 2#5 ≠ 31 by decide) (show 0#5 ≠ 31 by decide)
    refine ⟨get ++ (rdvl ++ (mov ++ msub)), ?_,
      setsUp_of_get hget' (hdoes.append (hdoes'.append hmul)) ?_ ?_⟩
    · rw [setWidth_r0, setWidth_r1, setWidth_r2] at hmsub
      simp only [regPlusImmVl, if_neg h0, hget', if_neg (vlMul_ne_zero hs), if_neg hdiv,
        if_neg hsmall, hrdvl, hmov, hmsub,
        if_pos (show ((0 : ℕ) : ℤ) = 0 from rfl)]
      rfl
    · intro v regs
      have hval : v - BitVec.ofInt 64 vl * BitVec.ofInt 64 imm + BitVec.ofInt 64 (imm * vl) = v := by
        rw [mul_comm imm, BitVec.ofInt_mul]
        exact BitVec.sub_add_cancel _ _
      simpa [Function.update_apply] using hval
    · intro v v' regs r hr
      obtain ⟨hrb, hr0⟩ : r ≠ base ∧ r ≠ 0#5 := not_or.mp hr
      simp [Function.update_apply, hrb, hr0]
  · obtain ⟨mul, hmul, hdoes''⟩ := does_writeMulRrr vl (show 1#5 ≠ 31 by decide)
      (show 1#5 ≠ 31 by decide) (show 2#5 ≠ 31 by decide)
    obtain ⟨sub, hsub, hasr⟩ := does_writeSubRrrs_asr vl hb (show 0#5 ≠ 31 by decide)
      (show 1#5 ≠ 31 by decide) hs
    refine ⟨get ++ (rdvl ++ (mov ++ (mul ++ sub))), ?_,
      setsUp_of_get hget' (hdoes.append (hdoes'.append (hdoes''.append hasr))) ?_ ?_⟩
    · rw [setWidth_r1, setWidth_r2] at hmul
      rw [setWidth_r0, setWidth_r1] at hsub
      simp only [regPlusImmVl, if_neg h0, hget', if_neg (vlMul_ne_zero hs), if_neg hdiv,
        if_neg hsmall, hrdvl, hmov, hmul, hsub, if_neg (Int.natCast_ne_zero.mpr hscale)]
      rfl
    · intro v regs
      have hval : v - (BitVec.ofInt 64 vl * BitVec.ofInt 64 imm).sshiftRight scale +
          BitVec.ofInt 64 ((imm * vl) >>> scale) = v := by
        rw [← BitVec.ofInt_mul, mul_comm _ imm, ofInt_sshiftRight h h' hvl]
        exact BitVec.sub_add_cancel _ _
      simpa [Function.update_apply] using hval
    · intro v v' regs r hr
      obtain ⟨hrb, hr0⟩ : r ≠ base ∧ r ≠ 0#5 := not_or.mp hr
      simp [Function.update_apply, hrb, hr0]

end

/-- `reg_plus_imm_vl`; the scale is free where the immediate is zero. -/
theorem regPlusImmVl_setsUp (hb : base ≠ 31#5) {imm scale : ℤ} (h : -2 ^ 31 ≤ imm) (h' : imm < 2 ^ 31)
    (hs : imm = 0 ∨ 0 ≤ scale ∧ scale < 64) (hvl : vl ≤ 256) (trashed : List (BitVec 64)) :
    VlSetsUp vl a draw base imm scale trashed := by
  by_cases h0 : imm = 0
  · subst h0
    obtain ⟨code, hcode, hup⟩ := @reg_setsUp_zero vl a draw base hb trashed
    refine ⟨code, (if_pos rfl).trans hcode, ?_⟩
    rwa [zero_mul, Int.zero_shiftRight]
  obtain ⟨hs, hs'⟩ := hs.resolve_left h0
  lift scale to ℕ using hs
  have hlt : scale < 64 := by exact_mod_cast hs'
  by_cases hdiv : imm = imm.tdiv (vlMul scale) * vlMul scale ∧
      -32 ≤ -imm.tdiv (vlMul scale) ∧ -imm.tdiv (vlMul scale) ≤ 31
  · exact regPlusImmVl_addvl hb h h' h0 hlt hdiv trashed
  by_cases hsmall : -32 ≤ imm ∧ imm ≤ 31
  · exact regPlusImmVl_rdvl hb h h' h0 hlt hvl hdiv hsmall trashed
  · exact regPlusImmVl_mul hb h h' h0 hlt hvl hdiv hsmall trashed

/-- No other scale is taken. -/
theorem regPlusImmVl_eq_none (m : Mode) (base : BitVec 64) {imm scale : ℤ}
    (h : ¬(imm = 0 ∨ 0 ≤ scale ∧ scale < 64)) (trashed : List (BitVec 64)) :
    regPlusImmVl m a draw base imm scale trashed = none := by
  obtain ⟨h0, hs⟩ := not_or.mp h
  have hmul : vlMul scale = 0 := by
    by_cases hneg : scale < 0
    · have hpos : 1 ≤ scale.natAbs := by omega
      have hzero : 1#64 >>> scale.natAbs = 0#64 := by
        apply BitVec.eq_of_toNat_eq
        rw [BitVec.toNat_ushiftRight, Nat.shiftRight_eq_div_pow]
        exact Nat.div_eq_of_lt (Nat.one_lt_two_pow (by omega))
      rw [vlMul, if_pos hneg, hzero, BitVec.toInt_zero]
    · rw [vlMul, if_neg hneg, BitVec.shiftLeft_eq_zero (by omega), BitVec.toInt_zero]
  simp [regPlusImmVl, h0, hmul]

end

/-! ### All of them -/

/-- A function of the generator writes code that sets up an address, and returns the base register or
-1. -/
def Exact (I : Isa) (a : Align) (base : BitVec I.k) (trashed : List (BitVec 64)) (emitted : Option Emitted)
    (ea : I.Regs → BitVec I.w) (kept tainted : Set (BitVec I.k)) : Prop :=
  ∃ code, emitted = some (code, baseOr (base.setWidth 64) trashed) ∧ SetsUp I a code ea kept tainted

/-- The functions that every mode has. -/
theorem exact_of_isa (I : Isa) (a : Align) (draw : Fin (2048 - 512)) (trashed : List (BitVec 64)) {imm : ℤ}
    (h : -2 ^ 31 ≤ imm) (h' : imm < 2 ^ 31) {base : BitVec I.k} (hb : I.IsBase base) :
    Exact I a base trashed (reg I.mode a draw (base.setWidth 64) trashed)
      (fun regs => regs base) ∅ {base} ∧
    Exact I a base trashed (regPlusImm I.mode a draw (base.setWidth 64) imm trashed)
      (fun regs => regs base + BitVec.ofInt _ imm) ∅ {base} ∧
    Exact I a base trashed (regMinusImm I.mode a draw (base.setWidth 64) imm trashed)
      (fun regs => regs base - BitVec.ofInt _ imm) ∅ {base} ∧
    ∀ idx, I.IsIndex idx → idx ≠ base →
      Exact I a base trashed (regPlusReg I.mode a draw (base.setWidth 64) (idx.setWidth 64) trashed)
        (fun regs => regs base + I.get regs idx) {idx} {base} ∧
      ∀ shift : ℤ, ¬(shift < 0 ∨ 4 < shift ∨ I.mode ≠ .aarch64 ∧ shift = 4) →
        Exact I a base trashed
          (regPlusRegShifted I.mode a draw (base.setWidth 64) (idx.setWidth 64) shift trashed)
          (fun regs => regs base + I.get regs idx <<< shift.toNat) {idx} {base} := by
  refine ⟨reg_setsUp hb trashed, regPlusImm_setsUp hb h (by omega) trashed,
    regMinusImm_setsUp hb h h' trashed,
    fun idx hi hne => ⟨regPlusReg_setsUp hb hi hne trashed, fun shift hs => ?_⟩⟩
  obtain ⟨hs0, hs4, hsm⟩ : 0 ≤ shift ∧ shift ≤ 4 ∧ (I.mode ≠ .aarch64 → shift ≠ 4) := by
    simpa only [not_or, not_and, not_lt] using hs
  lift shift to ℕ using hs0
  exact regPlusRegShifted_setsUp hb hi hne (by omega) (fun hm => by exact_mod_cast hsm hm) trashed

/-- **Addresses are exact**: in every mode and with vectors of every length, the addressing mode gives
an aligned place of the memory block, and only the base depends on where the block is. -/
theorem addresses_exact {vl : ℕ} (hvl : vl ≤ 256) (a : Align) (draw : Fin (2048 - 512))
    (trashed : List (BitVec 64)) {imm : ℤ} (h : -2 ^ 31 ≤ imm) (h' : imm < 2 ^ 31) :
    (∀ m (base : BitVec (isaOf vl m).k), (isaOf vl m).IsBase base →
      Exact (isaOf vl m) a base trashed (reg m a draw (base.setWidth 64) trashed)
        (fun regs => regs base) ∅ {base} ∧
      Exact (isaOf vl m) a base trashed (regPlusImm m a draw (base.setWidth 64) imm trashed)
        (fun regs => regs base + BitVec.ofInt _ imm) ∅ {base} ∧
      Exact (isaOf vl m) a base trashed (regMinusImm m a draw (base.setWidth 64) imm trashed)
        (fun regs => regs base - BitVec.ofInt _ imm) ∅ {base} ∧
      ∀ idx, (isaOf vl m).IsIndex idx → idx ≠ base →
        Exact (isaOf vl m) a base trashed
          (regPlusReg m a draw (base.setWidth 64) (idx.setWidth 64) trashed)
          (fun regs => regs base + (isaOf vl m).get regs idx) {idx} {base} ∧
        ∀ shift : ℤ, ¬(shift < 0 ∨ 4 < shift ∨ m ≠ .aarch64 ∧ shift = 4) →
          Exact (isaOf vl m) a base trashed
            (regPlusRegShifted m a draw (base.setWidth 64) (idx.setWidth 64) shift trashed)
            (fun regs => regs base + (isaOf vl m).get regs idx <<< shift.toNat) {idx} {base}) ∧
    ∀ base : BitVec 5, base ≠ 31 →
      Exact (isa64 vl) a base trashed (regPlusImmPl .aarch64 a draw (base.setWidth 64) imm trashed)
        (fun (regs : RegsA64) => regs base + BitVec.ofInt 64 (imm * (vl / 8 : ℕ))) ∅ {base, 0} ∧
      ∀ scale : ℤ, imm = 0 ∨ 0 ≤ scale ∧ scale < 64 →
        Exact (isa64 vl) a base trashed
          (regPlusImmVl .aarch64 a draw (base.setWidth 64) imm scale trashed)
          (fun (regs : RegsA64) => regs base + BitVec.ofInt 64 ((imm * vl) >>> scale.toNat)) ∅
          {base, 0} := by
  refine ⟨fun m base hb => ?_, fun base hb =>
    ⟨regPlusImmPl_setsUp hb h h' trashed, fun scale hs => regPlusImmVl_setsUp hb h h' hs hvl trashed⟩⟩
  cases m with
  | arm => exact exact_of_isa (isaOf vl .arm) a draw trashed h h' hb
  | thumb => exact exact_of_isa (isaOf vl .thumb) a draw trashed h h' hb
  | aarch64 => exact exact_of_isa (isaOf vl .aarch64) a draw trashed h h' hb

/-- The third register of A64, with vectors of 32 bytes. -/
theorem addresses_exact_x3 :
    Exact (isa64 32) ⟨16, by decide, by decide⟩ 3#5 []
      (regPlusImmVl .aarch64 ⟨16, by decide, by decide⟩ 0 3#64 100 1 [])
      (fun (regs : RegsA64) => regs 3#5 + BitVec.ofInt 64 1600) ∅ {3#5, 0} :=
  ((addresses_exact (show 32 ≤ 256 by decide) ⟨16, by decide, by decide⟩ 0 []
    (show -2 ^ 31 ≤ (100 : ℤ) by decide) (by decide)).2 3#5 (by decide)).2 1 (.inr (by decide))

end Risu.Gen.Arm
