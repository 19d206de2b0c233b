import Risu.Ppc64.Accepted

/-!
# What an accepted comparison can differ in

With a 32-bit `reg_t`, all floating-point registers compared and the four options that look at
values alone switched off, an accepted comparison differs only where the last instructions explain
it: `reginfoIsEq_confined`.

* `Confined` — a clause speaks only about the target of an arithmetic instruction or of a load of a
  single-precision number, or belongs to one of the four options;
* `fprClauses_confined` — every clause is;
* `gprTolerated_cases` — which general-purpose registers may differ.
-/

namespace Risu.Ppc64

open Lib

variable {nvr : ℕ}

/-! ### Instructions of floating-point arithmetic -/

/-- The pattern fixes the primary opcode, to 59 or 63. -/
def Insn.isFp (p : Insn) : Bool :=
  p.mask &&& 0xfc000000 == 0xfc000000 &&
    (p.value &&& 0xfc000000 == 0xec000000 || p.value &&& 0xfc000000 == 0xfc000000)

theorem ushiftRight_26 (x : BitVec 32) : x >>> 26 = (x &&& 0xfc000000) >>> 26 := by
  apply BitVec.eq_of_toNat_eq
  rw [BitVec.ushiftRight_and_distrib, BitVec.toNat_and,
    show ((0xfc000000 : BitVec 32) >>> 26).toNat = 2 ^ 6 - 1 by decide,
    Nat.and_two_pow_sub_one_eq_mod, BitVec.toNat_ushiftRight, Nat.shiftRight_eq_div_pow]
  omega

theorem Insn.isFp_primary {p : Insn} (hp : p.isFp = true) {insn : BitVec 32}
    (h : p.matches insn = true) : insn >>> 26 = 59 ∨ insn >>> 26 = 63 := by
  simp only [Insn.isFp, Bool.and_eq_true, Bool.or_eq_true, beq_iff_eq] at hp
  simp only [Insn.matches, beq_iff_eq] at h
  have hand : insn &&& 0xfc000000 = p.value &&& 0xfc000000 := by
    rw [← h, BitVec.and_assoc, hp.1]
  rw [ushiftRight_26, hand]
  rcases hp.2 with hv | hv
  · exact .inl (by rw [hv]; decide)
  · exact .inr (by rw [hv]; decide)

theorem isOneOf_primary {insns : List Insn} (hfp : insns.all Insn.isFp = true) {insn : BitVec 32}
    (h : isOneOf insn insns = true) : insn >>> 26 = 59 ∨ insn >>> 26 = 63 := by
  obtain ⟨p, hmem, hp⟩ := List.any_eq_true.mp h
  exact Insn.isFp_primary (List.all_eq_true.mp hfp p hmem) hp

/-! ### Clauses -/

/-- The options that look at values alone. -/
def valueOpts : BitVec 32 :=
  fpOptIgnoreQNaNSigns ||| fpOptIgnoreQNaNValues ||| fpOptIgnoreQNaNDiffs ||| fpOptIgnoreZeroSigns

/-- What the last instructions say about register `i`. -/
def Explained (c : Fpr) : Prop :=
  (c.i = c.rt ∧ (c.prevInsn >>> 26 = 59 ∨ c.prevInsn >>> 26 = 63)) ∨
    (c.i = field c.secondPrevInsn 21 ∧ isOneOf c.secondPrevInsn loadsFloat = true ∧
      (∀ j, j ≠ 51 → c.mi.getLsbD j = c.ai.getLsbD j) ∧ c.mi.getLsbD 51 = false)

def Confined (clause : Clause) : Prop :=
  clause.opt &&& valueOpts = clause.opt ∨ ∀ c, clause.holds c = true → Explained c

theorem arith_confined (opt : BitVec 32) {insns : List Insn} (hfp : insns.all Insn.isFp = true)
    (cond : Fpr → Bool) : Confined (arith opt insns cond) := by
  refine .inr fun c h => .inl ?_
  simp only [arith, Bool.and_eq_true, beq_iff_eq] at h
  exact ⟨h.1.2.symm, isOneOf_primary hfp h.1.1⟩

theorem qnanLoadFloat_confined : Confined qnanLoadFloat := by
  refine .inr fun c h => .inr ?_
  simp only [qnanLoadFloat, Bool.and_eq_true, beq_iff_eq] at h
  obtain ⟨⟨⟨hinsn, hi⟩, hrest⟩, hclear⟩ := h
  refine ⟨hi.symm, hinsn, ?_, ?_⟩
  · intro j hj
    by_cases hlt : j < 64
    · have hmask : ∀ k : Fin 64, k.val ≠ 51 →
          (0xfff7ffffffffffff : BitVec 64).getLsbD k.val = true := by decide
      have := congrArg (fun v => v.getLsbD j) hrest
      simpa only [BitVec.getLsbD_and, hmask ⟨j, hlt⟩ hj, Bool.and_true] using this
    · rw [BitVec.getLsbD_of_ge _ _ (by omega), BitVec.getLsbD_of_ge _ _ (by omega)]
  · have hbit : (0x0008000000000000 : BitVec 64).getLsbD 51 = true := rfl
    have hzero : (0 : BitVec 64).getLsbD 51 = false := rfl
    have := congrArg (fun v => v.getLsbD 51) hclear
    simpa only [BitVec.getLsbD_and, hbit, hzero, Bool.and_true] using this

/-- **Every clause is confined.** -/
theorem fprClauses_confined : ∀ clause ∈ fprClauses, Confined clause := by
  have hunder : ∀ p ∈ underflow, p.1.all Insn.isFp = true := by
    have : underflow.all (fun p => p.1.all Insn.isFp) = true := rfl
    exact fun p hp => List.all_eq_true.mp this p hp
  have hover : ∀ p ∈ overflow, p.1.all Insn.isFp = true := by
    have : overflow.all (fun p => p.1.all Insn.isFp) = true := rfl
    exact fun p hp => List.all_eq_true.mp this p hp
  have hvalue : ∀ clause : Clause, clause.opt &&& valueOpts = clause.opt → Confined clause :=
    fun _ h => .inl h
  simp only [fprClauses, List.forall_mem_append, List.forall_mem_map]
  refine ⟨⟨⟨⟨⟨?_, ?_⟩, ?_⟩, ?_⟩, ?_⟩, ?_⟩
  · simp only [List.forall_mem_cons]
    exact ⟨hvalue _ (by decide), hvalue _ (by decide), hvalue _ (by decide),
      qnanLoadFloat_confined, nofun⟩
  · simp only [operandClauses, List.forall_mem_cons]
    refine ⟨?_, ?_, ?_, ?_, ?_, ?_, ?_, ?_, ?_, ?_, nofun⟩ <;> exact arith_confined _ rfl _
  · exact fun p hp => arith_confined _ (hunder p hp) _
  · exact fun p hp => arith_confined _ (hover p hp) _
  · simp only [roundClauses, List.forall_mem_cons]
    refine ⟨?_, ?_, ?_, ?_, ?_, nofun⟩ <;> exact arith_confined _ rfl _
  · simp only [resultClauses, List.forall_mem_cons]
    refine ⟨?_, ?_, ?_, ?_, ?_, ?_, ?_, ?_, hvalue _ (by decide), ?_, ?_, ?_, nofun⟩ <;>
      exact arith_confined _ rfl _

/-- A tolerated difference is explained by the last instructions. -/
theorem fprTolerated_explained {o : Options} (hopts : o.fpOpts &&& valueOpts = 0)
    (hmask : o.fpregsMask = 0xffffffff) {c : Fpr} (h : fprTolerated o c = true) : Explained c := by
  have hnot : masked o.fpregsMask c.i = false := by
    rw [hmask, masked]
    simp
  simp only [fprTolerated, hnot, Bool.false_or, List.any_eq_true] at h
  obtain ⟨clause, hmem, h⟩ := h
  simp only [Clause.tolerates, Bool.and_eq_true, bne_iff_ne] at h
  rcases fprClauses_confined clause hmem with hopt | hexp
  · refine absurd ?_ h.1
    rw [← hopt, BitVec.and_comm clause.opt, ← BitVec.and_assoc, hopts]
    exact BitVec.zero_and
  · exact hexp c h.2

/-! ### General-purpose registers -/

/-- A tolerated difference of a general-purpose register is in the target of an `mflr` or of a
division, or in the last register of an `lscbx`. -/
theorem gprTolerated_cases {w : ℕ} {m s : Reginfo w nvr} {i : Fin 32}
    (h : gprTolerated m s i = some true) :
    (i = m.rt ∧ isOneOf m.prevInsn [Insn.mflr, Insn.div, Insn.divs] = true) ∨
      (Insn.lscbx.matches m.secondPrevInsn = true ∧ m.gregs risuXer &&& 3 ≠ 0 ∧
        i.val = lscbxLast m) := by
  have htarget : ∀ p ∈ [Insn.mflr, Insn.div, Insn.divs], p.matches m.prevInsn = true → m.rt = i →
      i = m.rt ∧ isOneOf m.prevInsn [Insn.mflr, Insn.div, Insn.divs] = true :=
    fun p hp hmatch hrt => ⟨hrt.symm, List.any_eq_true.mpr ⟨p, hp, hmatch⟩⟩
  unfold gprTolerated at h
  by_cases hmflr : mflrRelative m s i = true
  · simp only [mflrRelative, Bool.and_eq_true, beq_iff_eq] at hmflr
    exact .inl (htarget _ (by simp) hmflr.1.1 hmflr.1.2)
  rw [if_neg hmflr] at h
  obtain ⟨d, hd, h⟩ := Option.bind_eq_some_iff.mp h
  by_cases hdiv : (Insn.div.matches m.prevInsn && m.rt == i) = true
  · simp only [Bool.and_eq_true, beq_iff_eq] at hdiv
    exact .inl (htarget _ (by simp) hdiv.1 hdiv.2)
  rw [if_neg hdiv] at hd
  obtain rfl : false = d := by simpa using hd
  obtain ⟨ds, hds, h⟩ := Option.bind_eq_some_iff.mp h
  by_cases hdivs : (Insn.divs.matches m.prevInsn && m.rt == i) = true
  · simp only [Bool.and_eq_true, beq_iff_eq] at hdivs
    exact .inl (htarget _ (by simp) hdivs.1 hdivs.2)
  rw [if_neg hdivs] at hds
  obtain rfl : false = ds := by simpa using hds
  have hlscbx : lscbxTail m s i = true := by simpa [pure] using h
  simp only [lscbxTail, Bool.and_eq_true, beq_iff_eq, bne_iff_ne] at hlscbx
  exact .inr ⟨hlscbx.1.1.1, hlscbx.1.1.2, hlscbx.1.2⟩

/-- **Tolerance is confined.**  For all records with a 32-bit `reg_t`: if the comparison is accepted
while all floating-point registers are compared and the options that look at values alone are off,
then on the values before the call a differing floating-point register is the target of the last
arithmetic instruction, or of a load of a single-precision number and differs in the quiet bit only;
a differing general-purpose register that counts is the target of an `mflr` or of a division or the
last register of an `lscbx`; CTR agrees, the link register agrees relative to the pc, and XER and
FPSCR agree under their masks. -/
theorem reginfoIsEq_confined {o : Options} (hopts : o.fpOpts &&& valueOpts = 0)
    (hmask : o.fpregsMask = 0xffffffff) (signalCount : ℕ) (m a a' : Reginfo 32 nvr)
    (h : reginfoIsEq o signalCount m a = some (true, a')) :
    (∀ i, m.fpregs i ≠ a.fpregs i →
      (i = field m.prevInsn 21 ∧ (m.prevInsn >>> 26 = 59 ∨ m.prevInsn >>> 26 = 63)) ∨
      (i = field m.secondPrevInsn 21 ∧ isOneOf m.secondPrevInsn loadsFloat = true ∧
        (∀ j, j ≠ 51 → (m.fpregs i).getLsbD j = (a.fpregs i).getLsbD j) ∧
        (m.fpregs i).getLsbD 51 = false)) ∧
    (∀ i, m.gpr i ≠ a.gpr i → masked (localGregsMask o a) i = false →
      (i = field m.prevInsn 21 ∧
        isOneOf m.prevInsn [Insn.mflr, Insn.div, Insn.divs] = true) ∨
      (Insn.lscbx.matches m.secondPrevInsn = true ∧ m.gregs risuXer &&& 3 ≠ 0 ∧
        i.val = lscbxLast m)) ∧
    m.gregs risuCtr = a.gregs risuCtr ∧
    m.gregs risuLnk - m.gregs risuNip = a.gregs risuLnk - a.gregs risuNip ∧
    m.gregs risuXer &&& o.xerMask = a.gregs risuXer &&& o.xerMask ∧
    m.fpscr &&& o.fpscrMask = a.fpscr &&& o.fpscrMask := by
  have haccepted := scan_accepted (reginfoIsEq_true.mp h)
  refine ⟨?_, ?_, haccepted.ctr, haccepted.lnk, ?_, ?_⟩
  · intro i hne
    obtain ⟨t, hti, htol⟩ := haccepted.fpr i hne
    have hexp := fprTolerated_explained hopts hmask htol
    simpa only [Explained, fprAt, Fpr.rt, Fpr.mi, Fpr.ai, hti] using hexp
  · intro i hne hcounts
    obtain ⟨t, htol⟩ := haccepted.gpr i hne hcounts
    exact gprTolerated_cases htol
  · simpa [sameUnder] using haccepted.xer
  · simpa [sameUnder] using haccepted.fpscr

/-- The register that differs after an `mflr` is its target. -/
theorem reginfoIsEq_confined_mflr :
    (Options.default.fpOpts &&& valueOpts = 0 ∧ mflrMaster.gpr 3 ≠ mflrApprentice.gpr 3) ∧
    ((3 : Fin 32) = field mflrMaster.prevInsn 21 ∧
        isOneOf mflrMaster.prevInsn [Insn.mflr, Insn.div, Insn.divs] = true ∨
      Insn.lscbx.matches mflrMaster.secondPrevInsn = true ∧ mflrMaster.gregs risuXer &&& 3 ≠ 0 ∧
        (3 : Fin 32).val = lscbxLast mflrMaster) := by
  have hopts : Options.default.fpOpts &&& valueOpts = 0 := by decide
  have hne : mflrMaster.gpr 3 ≠ mflrApprentice.gpr 3 := by decide
  obtain ⟨a, ha⟩ := mflr_accepted
  have hconfined := reginfoIsEq_confined hopts rfl 1 mflrMaster mflrApprentice a ha
  exact ⟨⟨hopts, hne⟩, hconfined.2.1 3 hne (by decide)⟩

end Risu.Ppc64
