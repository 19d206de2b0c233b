import Mathlib.Data.Nat.Dist
import Risu.Ppc64.Accepted

/-!
# The rounding tolerance as a distance

With `fp_opt_ignore_round` as the only option, the target of an arithmetic instruction may differ by
a rounding error.  The source measures the difference with `ABS` on `int64_t`, and the negation of
the least value wraps: a register whose sign alone is inverted counts as close.  This is the only
difference accepted that is none of rounding (`rounding_bound`).

* `near_of_abs64` — what a small `ABS` says about two bit patterns that are no quiet NaNs;
* `fprTolerated_round` — the two clauses that are left when `fp_opt_ignore_round` is the only option.
-/

namespace Risu.Ppc64

variable {w nvr : ℕ}

/-- `1ULL<<63`. -/
def signBit : BitVec 64 := 0x8000000000000000

/-- The double-precision instructions whose rounding may differ. -/
def rounds : List Insn :=
  [Insn.fnmadd, Insn.fmadd, Insn.fsub, Insn.fmul, Insn.fnmsub, Insn.fmsub, Insn.fdiv, Insn.fadd]

/-- The estimates, whose precision is lower. -/
def estimates : List Insn := [Insn.frsqrte, Insn.fres]

/-- The two registers have the same sign and are close, as the previous instruction allows. -/
def RoundedAlike (prevInsn : BitVec 32) (x y : BitVec 64) : Prop :=
  x.msb = y.msb ∧ (isOneOf prevInsn rounds = true → Nat.dist x.toNat y.toNat ≤ 1) ∧
    (isOneOf prevInsn estimates = true → Nat.dist x.toNat y.toNat ≤ 2 ^ 47)

/-! ### Distances -/

theorem toNat_of_not_anyqnan {x : BitVec 64} (h : anyqnan x = false) :
    x.toNat % 2 ^ 63 < 0x7ff8000000000000 := by
  simp only [anyqnan, decide_eq_false_iff_not, ge_iff_le, BitVec.le_def, not_le] at h
  rw [magnitude_toNat] at h
  exact h

/-- The distance of two numbers, as `ABS` measures it: at the least value it wraps. -/
theorem abs64_sle {d bound : BitVec 64} (hb : bound.toNat < 2 ^ 63)
    (h : (abs64 d).sle bound = true) (hflip : d ≠ signBit) :
    d.toNat ≤ bound.toNat ∨ 2 ^ 64 ≤ d.toNat + bound.toNat := by
  have hsign : d.toNat ≠ 2 ^ 63 := fun heq => hflip (BitVec.eq_of_toNat_eq heq)
  have hbound : bound.toInt = bound.toNat := BitVec.toInt_eq_toNat_of_lt (by omega)
  have hd := d.isLt
  have hneg : d.slt 0 = true ↔ 2 ^ 63 ≤ d.toNat := by
    show d.slt 0#64 = true ↔ _
    rw [BitVec.slt_zero_iff_msb_cond, BitVec.msb_eq_decide, decide_eq_true_eq]
  rw [BitVec.sle_iff_toInt_le, hbound, abs64] at h
  split_ifs at h with hlt
  · have hd' := hneg.mp hlt
    have hminus : (-d).toNat = 2 ^ 64 - d.toNat := by
      rw [BitVec.toNat_neg]
      omega
    rw [BitVec.toInt_eq_toNat_of_lt (by omega), hminus] at h
    omega
  · rw [hneg] at hlt
    rw [BitVec.toInt_eq_toNat_of_lt (by omega)] at h
    omega

/-- Two bit patterns close to each other have one sign, as those at either end of a sign are quiet
NaNs. -/
theorem near_of_abs64 {x y bound : BitVec 64} (hb : bound.toNat < 2 ^ 51) (hx : anyqnan x = false)
    (hy : anyqnan y = false) (h : (abs64 (x - y)).sle bound = true) (hflip : x ≠ y + signBit) :
    y.msb = x.msb ∧ Nat.dist y.toNat x.toNat ≤ bound.toNat := by
  have hx := toNat_of_not_anyqnan hx
  have hy := toNat_of_not_anyqnan hy
  have hne : x - y ≠ signBit := fun heq => hflip (by rw [← heq, BitVec.add_comm, BitVec.sub_add_cancel])
  have hd := abs64_sle (by omega) h hne
  have hxlt := x.isLt
  have hylt := y.isLt
  rw [BitVec.toNat_sub] at hd
  refine ⟨?_, ?_⟩
  · rw [BitVec.msb_eq_decide, BitVec.msb_eq_decide, decide_eq_decide]
    omega
  · unfold Nat.dist
    omega

/-! ### The clauses in force -/

/-- No instruction is of both kinds. -/
theorem not_estimate_of_rounds {insn : BitVec 32} (h : isOneOf insn rounds = true) :
    isOneOf insn estimates = false := by
  by_contra hest
  rw [Bool.not_eq_false] at hest
  obtain ⟨p, hp, hpm⟩ := List.any_eq_true.mp h
  obtain ⟨q, hq, hqm⟩ := List.any_eq_true.mp hest
  have hdisjoint : ∀ p ∈ rounds, ∀ q ∈ estimates, p.value &&& q.mask ≠ q.value &&& p.mask := by
    decide
  exact hdisjoint p hp q hq (Insn.matches_agree hpm hqm)

/-- With one option only, the clauses of that option decide. -/
theorem any_tolerates (clauses : List Clause) (fpOpts : BitVec 32) (c : Fpr) :
    clauses.any (fun clause => clause.tolerates fpOpts c) =
      (clauses.filter fun clause => fpOpts &&& clause.opt != 0).any fun clause => clause.holds c := by
  rw [List.any_filter]
  rfl

theorem round_clauses :
    fprClauses.filter (fun clause => fpOptIgnoreRound &&& clause.opt != 0) = roundClauses.take 2 :=
  rfl

/-- What is tolerated with `fp_opt_ignore_round` only. -/
theorem fprTolerated_round {o : Options} (hopts : o.fpOpts = fpOptIgnoreRound)
    (hmask : o.fpregsMask = 0xffffffff) {c : Fpr} (h : fprTolerated o c = true) :
    anyqnan c.ai = false ∧ anyqnan c.mi = false ∧
      (isOneOf c.prevInsn rounds = true ∧ (abs64 (c.ai - c.mi)).sle 1 = true ∨
        isOneOf c.prevInsn estimates = true ∧ (abs64 (c.ai - c.mi)).sle (1#64 <<< 47) = true) := by
  have hnot : masked o.fpregsMask c.i = false := by
    rw [hmask, masked]
    simp
  rw [fprTolerated, hnot, Bool.false_or, any_tolerates, hopts, round_clauses] at h
  simp only [roundClauses, List.take_succ_cons, List.take_zero, List.any_cons, List.any_nil, arith,
    Bool.or_false, Bool.or_eq_true, Bool.and_eq_true, Bool.not_eq_true'] at h
  rcases h with ⟨⟨hinsn, -⟩, ⟨ha, hm⟩, habs⟩ | ⟨⟨hinsn, -⟩, ⟨ha, hm⟩, habs⟩
  · exact ⟨ha, hm, .inl ⟨hinsn, habs⟩⟩
  · exact ⟨ha, hm, .inr ⟨hinsn, habs⟩⟩

/-- A tolerated difference is one of rounding, unless the sign alone differs. -/
theorem roundedAlike_of_tolerated {o : Options} (hopts : o.fpOpts = fpOptIgnoreRound)
    (hmask : o.fpregsMask = 0xffffffff) {c : Fpr} (h : fprTolerated o c = true)
    (hflip : c.ai ≠ c.mi + signBit) : RoundedAlike c.prevInsn c.mi c.ai := by
  obtain ⟨ha, hm, hround⟩ := fprTolerated_round hopts hmask h
  rcases hround with ⟨hinsn, habs⟩ | ⟨hinsn, habs⟩
  · obtain ⟨hsign, hdist⟩ := near_of_abs64 (by decide) ha hm habs hflip
    refine ⟨hsign, fun _ => hdist, fun hest => ?_⟩
    rw [not_estimate_of_rounds hinsn] at hest
    cases hest
  · obtain ⟨hsign, hdist⟩ := near_of_abs64 (by decide) ha hm habs hflip
    refine ⟨hsign, fun hrounds => ?_, fun _ => hdist⟩
    rw [not_estimate_of_rounds hrounds] at hinsn
    cases hinsn

theorem msb_add_signBit (x : BitVec 64) : (x + signBit).msb = !x.msb := by
  have hx := x.isLt
  have hbit : signBit.toNat = 2 ^ 63 := by decide
  rw [BitVec.msb_eq_decide, BitVec.msb_eq_decide, BitVec.toNat_add, hbit, ← decide_not,
    decide_eq_decide]
  omega

/-- **The rounding tolerance is a distance bound, up to inverted signs.**  With
`fp_opt_ignore_round` as the only option and every floating-point register compared: a register that
differs in an accepted comparison has the master's sign and lies within the bound of the instruction,
if and only if it is not the master's value with the sign bit inverted. -/
theorem rounding_bound {o : Options} (hopts : o.fpOpts = fpOptIgnoreRound)
    (hmask : o.fpregsMask = 0xffffffff) (signalCount : ℕ) (m a a' : Reginfo w nvr)
    (h : reginfoIsEq o signalCount m a = some (true, a')) (i : Fin 32)
    (hne : m.fpregs i ≠ a.fpregs i) :
    RoundedAlike m.prevInsn (m.fpregs i) (a.fpregs i) ↔ a.fpregs i ≠ m.fpregs i + signBit := by
  refine ⟨?_, ?_⟩
  · intro halike heq
    have hsign := halike.1
    rw [heq, msb_add_signBit] at hsign
    exact Bool.not_ne_self _ hsign.symm
  · intro hflip
    obtain ⟨t, hti, htol⟩ := (scan_accepted (reginfoIsEq_true.mp h)).fpr i hne
    have halike := roundedAlike_of_tolerated hopts hmask htol
    simp only [fprAt, Fpr.mi, Fpr.ai, hti] at halike
    exact halike hflip

/-! ### An `fadd` -/

/-- The default options, with `fp_opt_ignore_round`. -/
def roundOptions : Options := { Options.default with fpOpts := fpOptIgnoreRound }

/-- A record right after `fadd f0,f0,f0`, with the given value in `f0`. -/
def afterFadd (f0 : BitVec 64) : Reginfo 32 0 where
  secondPrevInsn := 0
  prevInsn := 0xfc00002a
  faultingInsn := 0x5af0
  nextInsn := 0
  nip := 0
  gregs := fun _ => 0
  fpregs := fun i => if i.val = 0 then f0 else 0
  fpscr := 0
  vrregs := Fin.elim0

theorem fadd_accepted (x y : BitVec 64)
    (h : (reginfoIsEq roundOptions 1 (afterFadd x) (afterFadd y)).map Prod.fst = some true) :
    ∃ a, reginfoIsEq roundOptions 1 (afterFadd x) (afterFadd y) = some (true, a) := by
  obtain ⟨⟨res, a⟩, hres, rfl⟩ := Option.map_eq_some_iff.mp h
  exact ⟨a, hres⟩

/-- One unit in the last place above 1.0. -/
theorem rounding_bound_fadd :
    RoundedAlike 0xfc00002a 0x3ff0000000000000 0x3ff0000000000001 := by
  obtain ⟨a, ha⟩ := fadd_accepted 0x3ff0000000000000 0x3ff0000000000001 rfl
  exact (rounding_bound rfl rfl 1 (afterFadd 0x3ff0000000000000) (afterFadd 0x3ff0000000000001) a ha 0
    (by decide)).mpr (by decide)

/-- For 1.0 the apprentice may have -1.0. -/
theorem fadd_sign_accepted :
    ∃ a, reginfoIsEq roundOptions 1 (afterFadd 0x3ff0000000000000) (afterFadd 0xbff0000000000000) =
        some (true, a) ∧
      (afterFadd 0x3ff0000000000000).fpregs 0 ≠ (afterFadd 0xbff0000000000000).fpregs 0 ∧
      ¬ RoundedAlike (afterFadd 0x3ff0000000000000).prevInsn
        ((afterFadd 0x3ff0000000000000).fpregs 0) ((afterFadd 0xbff0000000000000).fpregs 0) := by
  obtain ⟨a, ha⟩ := fadd_accepted 0x3ff0000000000000 0xbff0000000000000 rfl
  refine ⟨a, ha, by decide, fun halike => ?_⟩
  exact absurd halike.1 (by decide)

end Risu.Ppc64
