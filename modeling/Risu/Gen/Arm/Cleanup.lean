import Risu.Gen.Arm.Address

/-!
# The end of a load or store on Arm (`gen_one_insn`)

Behind a load or store the generator turns the base register into an offset from the memory block.

* `cleanup` — the code that is written;
* `cleanup_run` — what it does, in every mode;
* `Keeps` — the results of the instruction are all there for the comparison;
* `cleanup_keeps_iff` — when they are: `r0` is used for the address of the block.
-/

namespace Risu.Gen.Arm

/-- The code behind a load or store; no base register stands for -1. -/
def cleanup (m : Mode) (basereg : Option (BitVec 64)) : Option (List Code) := do
  let offset ← match basereg with
    | some basereg => do
      let clear ← writeMovRi m 0 0
      let clear' ← writeMovRi m 0 0
      pure (clear ++ (writeRisuop m 3 ++ (writeSubRrr m basereg basereg 0 ++ clear')))
    | none => some []
  return dataBarrier m ++ (offset ++ writeRisuop m 4)

/-- The base register has become an offset, and the other registers have stayed. -/
def Keeps (I : Isa) (base : BitVec I.k) (block : BitVec I.w) (regs : I.Regs) : Prop :=
  ∃ code regs', cleanup I.mode (some (base.setWidth 64)) = some code ∧
    I.run block code regs = some regs' ∧ regs' base = regs base - block ∧
    ∀ r, r ≠ base → regs' r = regs r

/-- The offset is there only until `r0` is cleared. -/
theorem cleanup_run {I : Isa} {base : BitVec I.k} (hb : I.IsBase base) :
    ∃ code, cleanup I.mode (some (base.setWidth 64)) = some code ∧
      ∀ block regs, I.run block code regs =
        some (Function.update (Function.update regs base (regs base - block)) (I.reg 0) 0#I.w) := by
  obtain ⟨clear, hclear, hzero⟩ := @Isa.does_writeMovRi_zero I 0 (by decide) (by decide)
  have hsub := Isa.does_writeSubRrr hb hb (@Isa.isBase_reg I 0 (by decide))
  have hbarrier : I.Does (dataBarrier I.mode) fun _ regs => regs := I.run_dataBarrier
  have hcompare : I.Does (writeRisuop I.mode 4) fun _ regs => regs := I.run_comparemem
  rw [Isa.setWidth_reg (by decide)] at hsub
  have hdoes := hbarrier.append
    ((hzero.append (Isa.does_getmemblock.append (hsub.append hzero))).append hcompare)
  refine ⟨_, by simp [cleanup, hclear], fun block regs => (hdoes block regs).trans ?_⟩
  simp only [Function.update_self, Function.update_idem, BitVec.ofInt_ofNat, BitVec.zero_add]
  refine congrArg some (funext fun r => ?_)
  by_cases hr0 : r = I.reg 0
  · simp only [hr0, Function.update_self]
  · simp only [Function.update_of_ne hr0]
    by_cases hrb : r = base
    · have hb0 : base ≠ I.reg 0 := fun h => hr0 (hrb.trans h)
      simp only [hrb, Function.update_self, Function.update_of_ne hb0]
    · simp only [Function.update_of_ne hrb, Function.update_of_ne hr0]

/-- The registers are kept exactly where clearing `r0` changes nothing. -/
theorem keeps_iff {I : Isa} {base : BitVec I.k} (hb : I.IsBase base) (block : BitVec I.w)
    (regs : I.Regs) :
    Keeps I base block regs ↔
      base ≠ I.reg 0 ∧ regs (I.reg 0) = 0 ∨ base = I.reg 0 ∧ regs (I.reg 0) = block := by
  obtain ⟨code, hcode, hrun⟩ := cleanup_run hb
  have hafter : Keeps I base block regs ↔
      Function.update (Function.update regs base (regs base - block)) (I.reg 0) 0#I.w base =
          regs base - block ∧
        ∀ r, r ≠ base →
          Function.update (Function.update regs base (regs base - block)) (I.reg 0) 0#I.w r = regs r := by
    constructor
    · rintro ⟨code', regs', hcode', hrun', hkept⟩
      rw [← Option.some.inj (hcode.symm.trans hcode'), hrun block regs, Option.some.injEq] at hrun'
      rwa [hrun']
    · exact fun hkept => ⟨code, _, hcode, hrun block regs, hkept⟩
  rw [hafter]
  by_cases h0 : base = I.reg 0
  · subst h0
    constructor
    · rintro ⟨hbase, -⟩
      rw [Function.update_self] at hbase
      exact .inr ⟨rfl, by simpa using (BitVec.sub_eq_iff_eq_add.mp hbase.symm)⟩
    · rintro (⟨hne, -⟩ | ⟨-, hblock⟩)
      · exact absurd rfl hne
      · refine ⟨?_, fun r hr => ?_⟩
        · rw [Function.update_self, hblock]
          exact (BitVec.sub_self block).symm
        · rw [Function.update_of_ne hr, Function.update_of_ne hr]
  · constructor
    · rintro ⟨-, hframe⟩
      have hkept := hframe (I.reg 0) (Ne.symm h0)
      rw [Function.update_self] at hkept
      exact .inl ⟨h0, hkept.symm⟩
    · rintro (⟨-, hzero⟩ | ⟨heq, -⟩)
      · refine ⟨?_, fun r hr => ?_⟩
        · rw [Function.update_of_ne h0, Function.update_self]
        · by_cases hr0 : r = I.reg 0
          · rw [hr0, Function.update_self, hzero, BitVec.ofNat_eq_ofNat]
          · rw [Function.update_of_ne hr0, Function.update_of_ne hr]
      · exact absurd heq h0

/-- **The cleanup keeps the results** of a load or store exactly where `r0` has none to lose: it is zero
and not the base, or it is the base and holds the address of the memory block itself. -/
theorem cleanup_keeps_iff (vl : ℕ) (m : Mode) {base : BitVec (isaOf vl m).k}
    (hb : (isaOf vl m).IsBase base) (block : BitVec (isaOf vl m).w) (regs : (isaOf vl m).Regs) :
    Keeps (isaOf vl m) base block regs ↔
      base ≠ (isaOf vl m).reg 0 ∧ regs ((isaOf vl m).reg 0) = 0 ∨
        base = (isaOf vl m).reg 0 ∧ regs ((isaOf vl m).reg 0) = block :=
  keeps_iff hb block regs

/-- `r1` as the base, with nothing in `r0`. -/
theorem cleanup_keeps_r1 :
    Keeps (isaOf 16 .arm) 1#4 0x10000#32 (Function.update (fun _ => 0#32) 1#4 0x10100#32 : Regs) :=
  (cleanup_keeps_iff 16 .arm (show General 1#4 by unfold General; decide) 0x10000#32 _).mpr
    (.inl ⟨show 1#4 ≠ 0#4 by decide, rfl⟩)

/-- A load from `[r1]` into `r0` loses the value. -/
theorem not_cleanup_keeps_ldr_r0 : ¬∀ (vl : ℕ) (m : Mode) (base : BitVec (isaOf vl m).k),
    (isaOf vl m).IsBase base → ∀ block regs, Keeps (isaOf vl m) base block regs := by
  intro h
  have hbase : General 1#4 := by unfold General; decide
  have hkeeps := h 16 .arm 1#4 hbase 0x10000#32
    (Function.update (Function.update (fun _ => 0#32) 1#4 0x10100#32) 0#4 5#32 : Regs)
  rcases (keeps_iff (@id ((isaOf 16 .arm).IsBase 1#4) hbase) _ _).mp hkeeps with ⟨-, h5⟩ | ⟨h1, -⟩
  · exact absurd h5 (show 5#32 ≠ 0#32 by decide)
  · exact absurd h1 (show 1#4 ≠ 0#4 by decide)

end Risu.Gen.Arm
