import Mathlib.Data.Fintype.Pi
import Mathlib.Data.List.FinRange
import Risu.Lib.Memory
import Risu.Lib.Log

/-!
# The s390x port (`risu_s390x.c`, `risu_reginfo_s390x.c`)

* `reginfoInit`, `reginfoIsEq` — the record of a signal frame, and the comparison;
* `reginfoDumpMismatch` — the lines that are printed for a mismatch;
* `explained_s390x` — there are lines if and only if the comparison fails.
-/

namespace Risu.S390x

open Lib

abbrev Mem := BitVec 64 → Byte

def read16 (m : Mem) (a : BitVec 64) : BitVec 16 := BitVec.ofNat 16 (valueOf .big (load m a 2))

def read32 (m : Mem) (a : BitVec 64) : BitVec 32 := BitVec.ofNat 32 (valueOf .big (load m a 4))

/-! ### Records -/

structure Ucontext where
  pswMask : BitVec 64
  /-- The address in the PSW, that of the next instruction. -/
  pswAddr : BitVec 64
  gregs : Fin 16 → BitVec 64
  fpc : BitVec 32
  fprs : Fin 16 → BitVec 64
  mem : Mem

structure Reginfo where
  pswMask : BitVec 64
  pcOffset : BitVec 64
  faultingInsn : BitVec 64
  faultingInsnLen : ℕ
  fpc : BitVec 32
  gprs : Fin 16 → BitVec 64
  fprs : Fin 16 → BitVec 64

/-- The length of an instruction, by the first two bits. -/
def insnLen (first : Byte) : ℕ :=
  if first >>> 6 = 0 then 2 else if first >>> 6 = 3 then 6 else 4

/-- The instruction at an address.  Of one of six bytes the first two are shifted out of 32 bits. -/
def insnAt (m : Mem) (siaddr : BitVec 64) : BitVec 64 :=
  if m siaddr >>> 6 = 0 then (read16 m siaddr).setWidth 64
  else if m siaddr >>> 6 = 3 then
    ((read32 m siaddr <<< 16) ||| (read16 m (siaddr + 4)).setWidth 32).setWidth 64
  else (read32 m siaddr).setWidth 64

/-- `reginfo_init`, in an image at the given address. -/
def reginfoInit (imageStartAddress : BitVec 64) (uc : Ucontext) (siaddr : BitVec 64) : Reginfo where
  pswMask := uc.pswMask
  pcOffset := siaddr - imageStartAddress
  faultingInsn := insnAt uc.mem siaddr
  faultingInsnLen := insnLen (uc.mem siaddr)
  fpc := uc.fpc
  gprs := uc.gregs
  fprs := uc.fprs

/-- The PSW is at the next instruction already. -/
def advancePc (uc : Ucontext) : Ucontext := uc

/-- `get_risuop`; the ops that are not a `RisuOp` are returned as they are. -/
def getRisuop (ri : Reginfo) : BitVec 32 :=
  let insn := ri.faultingInsn.setWidth 32
  let op := insn &&& 0xff#32
  let key := insn &&& ~~~0xff#32
  if ri.faultingInsnLen = 4 ∧ key = 0x835a0f00#32 then op else -1

/-- `reginfo_is_eq` -/
def reginfoIsEq (m a : Reginfo) : Bool :=
  m.pcOffset == a.pcOffset && m.fpc == a.fpc && decide (m.gprs = a.gprs) && decide (m.fprs = a.fprs)

/-! ### The report -/

def hex64 (v : BitVec 64) : String := hex 16 v.toNat

/-- A register that differs, under its name. -/
def regLine (name : String) (m a : BitVec 64) : List String :=
  lineIf (m != a)
    ("Mismatch: " ++ name ++ " master: [" ++ hex64 m ++ "] - " ++ name ++ " apprentice: [" ++ hex64 a ++ "]\n")

/-- `reginfo_dump_mismatch`, as the lines it prints. -/
def reginfoDumpMismatch (m a : Reginfo) : List String :=
  regLine "PC offset" m.pcOffset a.pcOffset ++
    ((List.finRange 16).flatMap fun i => regLine ("r" ++ toString i.val) (m.gprs i) (a.gprs i)) ++
    ((List.finRange 16).flatMap fun i => regLine ("f" ++ toString i.val) (m.fprs i) (a.fprs i)) ++
    lineIf (m.fpc != a.fpc)
      ("Mismatch: FPC master: [" ++ hex 8 m.fpc.toNat ++ "] - FPC apprentice: [" ++ hex 8 a.fpc.toNat ++ "]\n")

variable {m a : Reginfo}

theorem regLine_eq_nil {name : String} {x y : BitVec 64} : regLine name x y = [] ↔ x = y := by
  simp [regLine]

/-- **A mismatch is printed, and what matches is not.** -/
theorem explained_s390x : reginfoIsEq m a = false ↔ reginfoDumpMismatch m a ≠ [] := by
  rw [← Bool.not_eq_true, not_iff_not]
  simp only [reginfoDumpMismatch, List.append_eq_nil_iff, List.flatMap_eq_nil_iff, List.mem_finRange,
    true_implies, regLine_eq_nil, lineIf_eq_nil, bne_eq_false_iff_eq, reginfoIsEq,
    Bool.and_eq_true, beq_iff_eq, decide_eq_true_eq, funext_iff]
  tauto

end Risu.S390x
