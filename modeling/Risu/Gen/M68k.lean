import Risu.Gen.Perl
import Risu.M68k.Reginfo

/-!
# The set-up of the m68k generator (`risugen_m68k.pm`)

The floating-point registers are not set up, and of the status register only the condition codes are.

* `writeMovRi`, `writeMovCcr`, `writeRandomRegdata`, `writeRisuop` — the code that is written;
* `run` — the instructions of this code: `move.l`, `movea.l` and `move` to the CCR;
* `run_writeRandomRegdata` — what the set-up leaves in the registers;
* `first_comparison` — when the records behind the set-up compare equal.
-/

namespace Risu.Gen.M68k

open Lib

/-! ### Writers -/

def writeRisuop (op : BitVec 64) : List Half := insn32Halves (0x4afc7000#64 ||| op)

def writeMovCcr (imm : BitVec 64) : List Half := [insn16 0x44fc#64, insn16 imm]

/-- `move.l #imm,%dr` -/
def writeMovDi (r imm : BitVec 64) : List Half := insn16 (0x203c#64 ||| (r <<< 9)) :: insn32Halves imm

/-- `movea.l #imm,%ar` -/
def writeMovAi (r imm : BitVec 64) : List Half := insn16 (0x207c#64 ||| (r <<< 9)) :: insn32Halves imm

def writeMovRi (r imm : BitVec 64) : List Half :=
  if r < 8 then writeMovDi r imm else writeMovAi (r - 8) imm

/-- What `irand` returns in `write_random_regdata`. -/
structure Draws where
  reg : BitVec 4 → BitVec 32
  ccr : BitVec 16

/-- `for (my $i = 0; $i < 14; $i++)` -/
def regs : List (BitVec 4) := (List.range 14).map (BitVec.ofNat 4)

def writeRandomRegdata (d : Draws) : List Half :=
  (regs.flatMap fun i => writeMovRi (i.setWidth 64) ((d.reg i).setWidth 64)) ++
    writeMovCcr (d.ccr.setWidth 64)

/-! ### The processor -/

/-- The data registers and the address registers, the status register, and the floating-point registers. -/
structure Cpu where
  reg : BitVec 4 → BitVec 32
  sr : BitVec 16
  fp : M68k.Fpregset

/-- `move` to the CCR; there are five condition codes, and the system byte stays. -/
def Cpu.setCcr (s : Cpu) (imm : Half) : Cpu := { s with sr := (s.sr &&& 0xff00#16) ||| (imm &&& 0x1f#16) }

def Cpu.setReg (s : Cpu) (r : BitVec 4) (imm : BitVec 32) : Cpu :=
  { s with reg := Function.update s.reg r imm }

/-- `move.l` and `movea.l` of an immediate. -/
def exec (h : Half) (imm : BitVec 32) (s : Cpu) : Option Cpu :=
  if h &&& 0xf1ff#16 = 0x203c#16 then some (s.setReg (0#1 ++ h.extractLsb' 9 3) imm)
  else if h &&& 0xf1ff#16 = 0x207c#16 then some (s.setReg (1#1 ++ h.extractLsb' 9 3) imm)
  else none

/-- The instructions one after the other; `none` where one is not of the set-up. -/
def run : List Half → Cpu → Option Cpu
  | [], s => some s
  | [_], _ => none
  | [h0, h1], s => if h0 = 0x44fc#16 then some (s.setCcr h1) else none
  | h0 :: h1 :: h2 :: hs, s =>
    if h0 = 0x44fc#16 then run (h2 :: hs) (s.setCcr h1) else (exec h0 (h1 ++ h2) s).bind (run hs)

variable {s : Cpu} {hs : List Half}

/-! ### What the writers do -/

theorem run_writeMovCcr (imm : BitVec 16) :
    run (writeMovCcr (imm.setWidth 64)) s = some (s.setCcr imm) := by
  have himm : insn16 (imm.setWidth 64) = imm := by
    rw [insn16, BitVec.setWidth_setWidth_of_le _ (by decide), BitVec.setWidth_eq]
  rw [writeMovCcr, himm, run, if_pos (by decide)]

/-- The first word of a move to a register says which one it is. -/
theorem movRi_word (r : BitVec 4) :
    ∃ h : Half, (∀ imm, writeMovRi (r.setWidth 64) imm = h :: insn32Halves imm) ∧ h ≠ 0x44fc#16 ∧
      ∀ imm s, exec h imm s = some (s.setReg r imm) := by
  by_cases hr : (r.setWidth 64 : BitVec 64) < 8
  · refine ⟨insn16 (0x203c#64 ||| (r.setWidth 64 <<< 9)), fun imm => if_pos hr, ?_, ?_⟩
    · revert r
      decide
    · intro imm s
      have hkey : insn16 (0x203c#64 ||| (r.setWidth 64 <<< 9)) &&& 0xf1ff#16 = 0x203c#16 ∧
          0#1 ++ (insn16 (0x203c#64 ||| (r.setWidth 64 <<< 9))).extractLsb' 9 3 = r := by
        revert r
        decide
      rw [exec, if_pos hkey.1, hkey.2]
  · refine ⟨insn16 (0x207c#64 ||| ((r.setWidth 64 - 8) <<< 9)), fun imm => if_neg hr, ?_, ?_⟩
    · revert r
      decide
    · intro imm s
      have hkey : insn16 (0x207c#64 ||| ((r.setWidth 64 - 8) <<< 9)) &&& 0xf1ff#16 = 0x207c#16 ∧
          1#1 ++ (insn16 (0x207c#64 ||| ((r.setWidth 64 - 8) <<< 9))).extractLsb' 9 3 = r := by
        revert r
        decide
      rw [exec, if_neg (by rw [hkey.1]; decide), if_pos hkey.1, hkey.2]

theorem run_writeMovRi (r : BitVec 4) (imm : BitVec 32) :
    run (writeMovRi (r.setWidth 64) (imm.setWidth 64) ++ hs) s = run hs (s.setReg r imm) := by
  obtain ⟨h, hcode, hne, hexec⟩ := movRi_word r
  have himm : insn32 (imm.setWidth 64) = imm := by
    rw [insn32, BitVec.setWidth_setWidth_of_le _ (by decide), BitVec.setWidth_eq]
  rw [hcode, insn32Halves, himm, List.cons_append, List.cons_append, List.cons_append, List.nil_append, run,
    if_neg hne, halves_append, hexec, Option.bind_some]

/-- The loop over the registers. -/
theorem run_regs (reg : BitVec 4 → BitVec 32) (rs : List (BitVec 4)) (s : Cpu) :
    run ((rs.flatMap fun i => writeMovRi (i.setWidth 64) ((reg i).setWidth 64)) ++ hs) s =
      run hs { s with reg := fun r => if r ∈ rs then reg r else s.reg r } := by
  induction rs generalizing s with
  | nil => simp
  | cons r rs ih =>
    rw [List.flatMap_cons, List.append_assoc, run_writeMovRi, ih]
    congr 1
    simp only [Cpu.setReg, Cpu.mk.injEq, and_true]
    funext i
    by_cases hi : i = r
    · simp [hi]
    · simp [hi]

/-! ### The set-up -/

/-- The registers as the set-up leaves them: all but the frame pointer and the stack pointer are as drawn. -/
def Draws.cpu (d : Draws) (s : Cpu) : Cpu where
  reg := fun r => if r < 14 then d.reg r else s.reg r
  sr := (s.sr &&& 0xff00#16) ||| (d.ccr &&& 0x1f#16)
  fp := s.fp

theorem run_writeRandomRegdata (d : Draws) (s : Cpu) : run (writeRandomRegdata d) s = some (d.cpu s) := by
  have hregs : ∀ r : BitVec 4, r ∈ regs ↔ r < 14 := by decide
  rw [writeRandomRegdata, run_regs, run_writeMovCcr]
  simp only [hregs]
  rfl

/-- The context of a processor that has stopped. -/
def Cpu.context (s : Cpu) (pc : BitVec 32) (mem : M68k.Mem) : M68k.Ucontext where
  gregs := fun i =>
    if i.val < 16 then s.reg (BitVec.ofNat 4 i) else if i = M68k.rPc then pc else s.sr.setWidth 32
  fpregs := s.fp
  mem := mem

/-- What the set-up leaves as it was, and the comparison looks at. -/
structure Alike (s s' : Cpu) : Prop where
  system : s.sr &&& 0xff00#16 = s'.sr &&& 0xff00#16
  fPcr : s.fp.fPcr = s'.fp.fPcr
  fPsr : s.fp.fPsr = s'.fp.fPsr
  fFpregs : s.fp.fFpregs = s'.fp.fFpregs

theorem setWidth_sr_inj {x y : BitVec 16} : x.setWidth 32 = y.setWidth 32 ↔ x = y := by
  constructor
  · intro h
    have hback := congrArg (BitVec.setWidth 16) h
    rwa [BitVec.setWidth_setWidth_of_le _ (by decide), BitVec.setWidth_setWidth_of_le _ (by decide),
      BitVec.setWidth_eq, BitVec.setWidth_eq] at hback
  · rintro rfl
    rfl

/-- With the same condition codes two status registers differ in the system byte. -/
theorem sr_inj (d : Draws) (s s' : Cpu) :
    (d.cpu s).sr = (d.cpu s').sr ↔ s.sr &&& 0xff00#16 = s'.sr &&& 0xff00#16 := by
  have hsystem (x y : BitVec 16) :
      ((x &&& 0xff00#16) ||| (y &&& 0x1f#16)) &&& 0xff00#16 = x &&& 0xff00#16 := by
    apply BitVec.eq_of_getLsbD_eq
    intro i hi
    have hbits : ∀ i < 16, (0x1f#16).getLsbD i = true → (0xff00#16).getLsbD i = false := by decide
    have hbit := hbits i hi
    simp only [BitVec.getLsbD_and, BitVec.getLsbD_or]
    revert hbit
    cases x.getLsbD i <;> cases y.getLsbD i <;> cases (0xff00#16).getLsbD i <;>
      cases (0x1f#16).getLsbD i <;> simp
  constructor
  · intro h
    have hmask := congrArg (· &&& 0xff00#16) h
    simpa only [Draws.cpu, hsystem] using hmask
  · intro h
    simp only [Draws.cpu, h]

/-- **Behind the set-up two processors compare equal if and only if they were alike before in the
floating-point registers and in the system byte.** -/
theorem first_comparison (d : Draws) (s s' : Cpu) (start start' pc pc' : BitVec 32) (mem mem' : M68k.Mem) :
    ∃ t t', run (writeRandomRegdata d) s = some t ∧ run (writeRandomRegdata d) s' = some t' ∧
      (M68k.reginfoIsEq (M68k.reginfoInit start (t.context pc mem))
        (M68k.reginfoInit start' (t'.context pc' mem')) = true ↔ Alike s s') := by
  refine ⟨_, _, run_writeRandomRegdata d s, run_writeRandomRegdata d s', ?_⟩
  have hregs : ∀ i : Fin 16, M68k.compared i = true →
      (M68k.reginfoInit start (((d.cpu s).context pc mem))).greg i =
        (M68k.reginfoInit start' (((d.cpu s').context pc' mem'))).greg i := by
    intro i hi
    have hlt : BitVec.ofNat 4 i.val < 14 := by
      revert i
      decide
    have hval : (i.castLE (by decide) : Fin 18).val < 16 := i.isLt
    simp only [M68k.Reginfo.greg, M68k.reginfoInit, Cpu.context, if_pos hval, Draws.cpu]
    exact (if_pos hlt).trans (if_pos hlt).symm
  have hps (s : Cpu) (start pc : BitVec 32) (mem : M68k.Mem) :
      (M68k.reginfoInit start (s.context pc mem)).gregs M68k.rPs = s.sr.setWidth 32 := rfl
  rw [M68k.reginfoIsEq_iff, hps, hps, setWidth_sr_inj, sr_inj]
  constructor
  · rintro ⟨hsystem, -, hpcr, hpsr, hfp⟩
    exact ⟨hsystem, hpcr, hpsr, hfp⟩
  · rintro ⟨hsystem, hpcr, hpsr, hfp⟩
    exact ⟨hsystem, hregs, hpcr, hpsr, hfp⟩

end Risu.Gen.M68k
