import Mathlib.Data.Fintype.Pi
import Risu.Lib.Memory

/-!
# Register records of the aarch64 port (`risu_reginfo_aarch64.c`)

The vector registers are copied as bytes into `extra`, from the FP/SIMD record of the signal frame or
from its SVE record.

* `walk` — the chain of records;
* `reginfoInit`, `reginfoIsEq` — the record of a signal frame, and the comparison.
-/

namespace Risu.Aarch64

open Lib

abbrev Mem := BitVec 64 → Byte

def read16 (m : Mem) (a : BitVec 64) : BitVec 16 := BitVec.ofNat 16 (valueOf .little (load m a 2))

def read32 (m : Mem) (a : BitVec 64) : BitVec 32 := BitVec.ofNat 32 (valueOf .little (load m a 4))

def read64 (m : Mem) (a : BitVec 64) : BitVec 64 := BitVec.ofNat 64 (valueOf .little (load m a 8))

/-! ### Layout of the SVE registers -/

/-- `SVE_VQ_MAX` -/
def sveVqMax : ℕ := 16

/-- `SVE_SIG_ZREG_OFFSET(vq, i) - SVE_SIG_REGS_OFFSET` -/
def zregOffset (vq i : ℕ) : ℕ := 16 * vq * i

/-- `SVE_SIG_PREG_OFFSET(vq, i) - SVE_SIG_REGS_OFFSET`; register 16 is FFR. -/
def pregOffset (vq i : ℕ) : ℕ := 16 * vq * 32 + 2 * vq * i

/-- `SVE_SIG_REGS_SIZE` -/
def sveSigRegsSize (vq : ℕ) : ℕ := pregOffset vq 17

/-- `SVE_SIG_REGS_OFFSET` -/
def sveSigRegsOffset : ℕ := 16

/-- `SVE_SIG_CONTEXT_SIZE` -/
def sveSigContextSize (vq : ℕ) : ℕ := sveSigRegsOffset + sveSigRegsSize vq

/-- `RISU_SVE_REGS_SIZE` -/
def risuSveRegsSize (vq : ℕ) : ℕ := (sveSigRegsSize vq + 15) / 16 * 16

/-- `RISU_SIMD_REGS_SIZE` -/
def risuSimdRegsSize : ℕ := 32 * 16

/-! ### Signal frames -/

/-- `fp`, `sve` and `extra`: records that were found, 0 for none. -/
structure Records where
  fp : BitVec 64
  sve : BitVec 64
  extra : BitVec 64
  deriving DecidableEq

/-- `FPSIMD_MAGIC` -/
def fpsimdMagic : BitVec 32 := 0x46508001#32

/-- `SVE_MAGIC` -/
def sveMagic : BitVec 32 := 0x53564501#32

/-- `EXTRA_MAGIC` -/
def extraMagic : BitVec 32 := 0x45585401#32

/-- The loop over the records, at most `turns` turns; `none` if the chain does not end. -/
def walk (m : Mem) : ℕ → BitVec 64 → Records → Option Records
  | 0, _, _ => none
  | turns + 1, ctx, r =>
    let next := ctx + (read32 m (ctx + 4)).setWidth 64
    if ctx = 0 then some r
    else if read32 m ctx = fpsimdMagic then walk m turns next { r with fp := ctx }
    else if read32 m ctx = sveMagic then walk m turns next { r with sve := ctx }
    else if read32 m ctx = extraMagic then walk m turns next { r with extra := read64 m (ctx + 8) }
    else if read32 m ctx = 0 then walk m turns r.extra { r with extra := 0 }
    else walk m turns next r

/-- What `reginfo_init` reads of a signal frame.  The chain of records ends. -/
structure Frame where
  regs : Fin 31 → BitVec 64
  faultAddress : BitVec 64
  pc : BitVec 64
  pstate : BitVec 64
  mem : Mem
  /-- `&uc->uc_mcontext.__reserved[0]` -/
  reserved : BitVec 64
  records : Records
  turns : ℕ
  walked : walk mem turns reserved ⟨0, 0, 0⟩ = some records

/-- What the program is given: `image_start_address` and `test_sve`. -/
structure Env where
  imageStartAddress : BitVec 64
  testSve : ℕ
  testSve_le : testSve ≤ sveVqMax

/-! ### Records -/

structure Reginfo where
  faultAddress : BitVec 64
  regs : Fin 31 → BitVec 64
  sp : BitVec 64
  pc : BitVec 64
  flags : BitVec 32
  faultingInsn : BitVec 32
  fpsr : BitVec 32
  fpcr : BitVec 32
  sveVl : BitVec 16
  reserved : BitVec 16
  /-- The bytes of `extra`; only those below its size are read. -/
  extra : ℕ → Byte

/-- `sve_vq_from_vl` -/
def Reginfo.vq (ri : Reginfo) : ℕ := ri.sveVl.toNat / 16

/-- `memcpy` to the start of `extra`. -/
def Reginfo.copyExtra (ri : Reginfo) (m : Mem) (src : BitVec 64) (len : ℕ) : Reginfo :=
  { ri with extra := fun i => if i < len then m (src + BitVec.ofNat 64 i) else ri.extra i }

/-- `reginfo_init` -/
def reginfoInit (e : Env) (u : Frame) : Reginfo :=
  let ri : Reginfo :=
    { faultAddress := u.faultAddress
      regs := u.regs
      sp := 0xdeadbeefdeadbeef#64
      pc := u.pc - e.imageStartAddress
      flags := u.pstate.setWidth 32 &&& 0xf0000000#32
      faultingInsn := read32 u.mem u.pc
      fpsr := 0
      fpcr := 0
      sveVl := 0
      reserved := 0
      extra := fun _ => 0 }
  let fp := u.records.fp
  let sve := u.records.sve
  let size := (read32 u.mem (sve + 4)).toNat
  -- `sizeof(struct fpsimd_context)`
  if fp = 0 ∨ (read32 u.mem (fp + 4)).toNat ≠ 528 then ri
  else
    let ri := { ri with fpsr := read32 u.mem (fp + 8), fpcr := read32 u.mem (fp + 12) }
    if e.testSve = 0 then ri.copyExtra u.mem (fp + 16) risuSimdRegsSize
    else if sve = 0 then ri
    else if (read16 u.mem (sve + 8)).toNat ≠ 16 * e.testSve then ri
    -- only AdvSIMD state is present
    else if size ≤ sveSigContextSize 0 then ri.copyExtra u.mem (fp + 16) risuSimdRegsSize
    else if size < sveSigContextSize e.testSve then ri
    else
      { ri with sveVl := read16 u.mem (sve + 8) }.copyExtra u.mem
        (sve + BitVec.ofNat 64 sveSigRegsOffset) (sveSigRegsSize e.testSve)

/-- The bytes of `extra` in `reginfo_size`. -/
def Reginfo.extraSize (ri : Reginfo) : ℕ :=
  if ri.sveVl ≠ 0 then risuSveRegsSize ri.vq else risuSimdRegsSize

/-- `reginfo_is_eq`: the first `reginfo_size` bytes are equal; those of the padding are zero. -/
def reginfoIsEq (r1 r2 : Reginfo) : Bool :=
  r1.faultAddress == r2.faultAddress && decide (r1.regs = r2.regs) && r1.sp == r2.sp && r1.pc == r2.pc &&
    r1.flags == r2.flags && r1.faultingInsn == r2.faultingInsn && r1.fpsr == r2.fpsr &&
    r1.fpcr == r2.fpcr && r1.sveVl == r2.sveVl && r1.reserved == r2.reserved &&
    (List.range r1.extraSize).all fun i => r1.extra i == r2.extra i

end Risu.Aarch64
