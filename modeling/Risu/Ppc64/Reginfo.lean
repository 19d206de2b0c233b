import Risu.Interface

/-!
# Register records and options of the ppc64 port (`risu_reginfo_ppc64.h`, `risu_ppc64.c`)

`w` is the width of `reg_t`, 32 or 64.  The vector registers are an array of `nvr` registers: 32
of them in a build with `VRREGS`, none otherwise.

* `Reginfo` — `struct reginfo`;
* `Options` — the masks and option words that `process_arch_opt` sets;
* `Insn` — the instruction patterns the comparator knows, a mask and a value each.
-/

namespace Risu.Ppc64

@[ext]
structure Reginfo (w nvr : ℕ) where
  secondPrevInsn : BitVec 32
  prevInsn : BitVec 32
  faultingInsn : BitVec 32
  nextInsn : BitVec 32
  nip : BitVec 32
  gregs : Fin 41 → BitVec w
  fpregs : Fin 32 → BitVec 64
  fpscr : BitVec w
  vrregs : Fin nvr → Fin 4 → BitVec 32

/-! ### Indices into `gregs` -/

def risuNip : Fin 41 := 32
def risuMsr : Fin 41 := 33
def risuCtr : Fin 41 := 34
def risuLnk : Fin 41 := 35
def risuXer : Fin 41 := 36
def risuCcr : Fin 41 := 37
def risuMq : Fin 41 := 38
def risuDar : Fin 41 := 39
def risuDsisr : Fin 41 := 40

/-- `r0` carries the parameter of an op. -/
def paramreg : Fin 41 := 0

/-- The index of general-purpose register `i`. -/
def gprIndex (i : Fin 32) : Fin 41 := i.castLE (by decide)

variable {w nvr : ℕ}

def Reginfo.setGreg (r : Reginfo w nvr) (j : Fin 41) (v : BitVec w) : Reginfo w nvr :=
  { r with gregs := Function.update r.gregs j v }

def Reginfo.setFpreg (r : Reginfo w nvr) (i : Fin 32) (v : BitVec 64) : Reginfo w nvr :=
  { r with fpregs := Function.update r.fpregs i v }

def Reginfo.setVrreg (r : Reginfo w nvr) (i : Fin nvr) (v : Fin 4 → BitVec 32) : Reginfo w nvr :=
  { r with vrregs := Function.update r.vrregs i v }

/-- `get_risuop`. -/
def getRisuop (r : Reginfo w nvr) : BitVec 32 :=
  let insn := r.faultingInsn
  let op := insn &&& 0xf
  let key := insn &&& ~~~0xf
  let risukey : BitVec 32 := 0x00005af0
  if key ≠ risukey then RisuOp.sigill.code else op

/-! ### Options -/

structure Options where
  gregsMask : BitVec 32
  ccrMask : BitVec 32
  xerMask : BitVec 32
  mqMask : BitVec 32
  fpscrMask : BitVec 32
  fpregsMask : BitVec 32
  vrregsMask : BitVec 32
  fpOpts : BitVec 32
  cpuOpts : BitVec 32

/-- The values before any option is processed; `r1` and `r13` are ignored. -/
def Options.default : Options where
  gregsMask := ~~~((1#32 <<< (31 - 1)) ||| (1#32 <<< (31 - 13)))
  ccrMask := 0xffffffff
  xerMask := 0xffffffff
  mqMask := 0xffffffff
  fpscrMask := 0xffffffff
  fpregsMask := 0xffffffff
  vrregsMask := 0xffffffff
  fpOpts := 0
  cpuOpts := 0

/-- `process_arch_opt`, for the option with the given index and the value of its argument. -/
def processArchOpt (o : Options) (opt : ℕ) (val : BitVec 32) : Options :=
  match opt with
  | 0 => { o with ccrMask := val }
  | 1 => { o with fpscrMask := val }
  | 2 => { o with fpregsMask := val }
  | 3 => { o with vrregsMask := val }
  | 4 => { o with fpOpts := val }
  | 5 => { o with gregsMask := val }
  | 6 => { o with xerMask := val }
  | 7 => { o with mqMask := val }
  | 8 => { o with cpuOpts := val }
  | _ => o

/-- `(1 << (31-i)) & ~mask`: register `i` is left out of the comparison. -/
def masked (mask : BitVec 32) (i : ℕ) : Bool := (1#32 <<< (31 - i)) &&& ~~~mask != 0

/-- `cpu_opts & cpu_opt_use_601`. -/
def Options.use601 (o : Options) : Bool := o.cpuOpts &&& 0x00000002 != 0

/-! ### Instructions -/

structure Insn where
  mask : BitVec 32
  value : BitVec 32

def Insn.matches (p : Insn) (insn : BitVec 32) : Bool := insn &&& p.mask == p.value

/-- Two patterns that one instruction matches agree where both look. -/
theorem Insn.matches_agree {p q : Insn} {insn : BitVec 32} (hp : p.matches insn = true)
    (hq : q.matches insn = true) : p.value &&& q.mask = q.value &&& p.mask := by
  simp only [Insn.matches, beq_iff_eq] at hp hq
  rw [← hp, ← hq, BitVec.and_assoc, BitVec.and_comm p.mask, BitVec.and_assoc]

/-- The instruction is one of those listed. -/
def isOneOf (insn : BitVec 32) (ps : List Insn) : Bool := ps.any fun p => p.matches insn

/-- A five-bit register field. -/
def field (insn : BitVec 32) (shift : ℕ) : Fin 32 := Fin.ofNat 32 (insn >>> shift).toNat

namespace Insn

def addi : Insn := ⟨0xfc000000, 0x38000000⟩
def subf : Insn := ⟨0xfc0007ff, 0x7c000050⟩
def mflr : Insn := ⟨0xfc1fffff, 0x7c0802a6⟩
/-- `div[o][.]` -/
def div : Insn := ⟨0xfc0003fe, 0x7c000296⟩
/-- `div[o].` -/
def divDot : Insn := ⟨0xfc0003ff, 0x7c000297⟩
/-- `divs[o][.]` -/
def divs : Insn := ⟨0xfc0003fe, 0x7c0002d6⟩
/-- `lscbx[.]` -/
def lscbx : Insn := ⟨0xfc0007fe, 0x7c00022a⟩
/-- `fcmpo` or `fcmpu` -/
def fcmp : Insn := ⟨0xfc6007bf, 0xfc000000⟩
def mcrfs : Insn := ⟨0xfc63ffff, 0xfc000080⟩
def mulli : Insn := ⟨0xfc000000, 0x1c000000⟩
def mullw : Insn := ⟨0xfc0003fe, 0x7c0001d6⟩
def mulhw : Insn := ⟨0xfc0007fe, 0x7c000096⟩
def mulhwu : Insn := ⟨0xfc0007fe, 0x7c000016⟩
def divw : Insn := ⟨0xfc0003fe, 0x7c0003d6⟩
def divwu : Insn := ⟨0xfc0003fe, 0x7c000396⟩
def lfs : Insn := ⟨0xfc000000, 0xc0000000⟩
def lfsu : Insn := ⟨0xfc000000, 0xc4000000⟩
def lfsx : Insn := ⟨0xfc0007ff, 0x7c00042e⟩
def lfsux : Insn := ⟨0xfc0007fe, 0x7c00046e⟩
def fadd : Insn := ⟨0xfc0007fe, 0xfc00002a⟩
def fadds : Insn := ⟨0xfc0007fe, 0xec00002a⟩
def fsub : Insn := ⟨0xfc0007fe, 0xfc000028⟩
def fsubs : Insn := ⟨0xfc0007fe, 0xec000028⟩
def fdiv : Insn := ⟨0xfc0007fe, 0xfc000024⟩
def fdivs : Insn := ⟨0xfc0007fe, 0xec000024⟩
def fmul : Insn := ⟨0xfc00f83e, 0xfc000032⟩
def fmuls : Insn := ⟨0xfc00f83e, 0xec000032⟩
def fmadd : Insn := ⟨0xfc00003e, 0xfc00003a⟩
def fmadds : Insn := ⟨0xfc00003e, 0xec00003a⟩
def fmsub : Insn := ⟨0xfc00003e, 0xfc000038⟩
def fmsubs : Insn := ⟨0xfc00003e, 0xec000038⟩
def fnmadd : Insn := ⟨0xfc00003e, 0xfc00003e⟩
def fnmadds : Insn := ⟨0xfc00003e, 0xec00003e⟩
def fnmsub : Insn := ⟨0xfc00003e, 0xfc00003c⟩
def fnmsubs : Insn := ⟨0xfc00003e, 0xec00003c⟩
def frsp : Insn := ⟨0xfc1f07fe, 0xfc000018⟩
def fres : Insn := ⟨0xfc1f07fe, 0xec000030⟩
def frsqrte : Insn := ⟨0xfc1f07fe, 0xfc000034⟩

end Insn

end Risu.Ppc64
