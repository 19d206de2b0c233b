import Mathlib.Data.Fintype.Pi
import Mathlib.Data.List.FinRange
import Risu.Lib.Memory
import Risu.Lib.Log

/-!
# The m68k port (`risu_m68k.c`, `risu_reginfo_m68k.c`)

* `reginfoInit`, `reginfoIsEq` — the record of a signal frame, and the comparison;
* `reginfoDumpMismatch` — the lines that are printed for a mismatch;
* `explained_m68k` — there are lines if and only if the comparison fails.
-/

namespace Risu.M68k

open Lib

abbrev Mem := BitVec 32 → Byte

def read32 (m : Mem) (a : BitVec 32) : BitVec 32 := BitVec.ofNat 32 (valueOf .big (load m a 4))

/-! ### Records -/

/-- `R_A0`, `R_A6`, `R_SP`, `R_PC` and `R_PS`; the data registers are before them. -/
def rA0 : Fin 18 := 8

def rA6 : Fin 18 := 14

def rSp : Fin 18 := 15

def rPc : Fin 18 := 16

def rPs : Fin 18 := 17

/-- `fpregset_t` -/
structure Fpregset where
  fPcr : BitVec 32
  fPsr : BitVec 32
  fFpiaddr : BitVec 32
  fFpregs : Fin 8 → Fin 3 → BitVec 32

structure Ucontext where
  gregs : Fin 18 → BitVec 32
  fpregs : Fpregset
  mem : Mem

structure Reginfo where
  faultingInsn : BitVec 32
  pc : BitVec 32
  gregs : Fin 18 → BitVec 32
  fpregs : Fpregset

/-- `reginfo_init`, in an image at the given address. -/
def reginfoInit (imageStartAddress : BitVec 32) (uc : Ucontext) : Reginfo where
  faultingInsn := read32 uc.mem (uc.gregs rPc)
  pc := uc.gregs rPc - imageStartAddress
  gregs := uc.gregs
  fpregs := uc.fpregs

def advancePc (uc : Ucontext) : Ucontext :=
  { uc with gregs := Function.update uc.gregs rPc (uc.gregs rPc + 4) }

/-- `get_risuop`; the ops that are not a `RisuOp` are returned as they are. -/
def getRisuop (ri : Reginfo) : BitVec 32 :=
  let op := ri.faultingInsn &&& 0xf#32
  let key := ri.faultingInsn &&& ~~~0xf#32
  if key ≠ 0x4afc7000#32 then -1 else op

/-- The registers that are compared: all but the frame pointer and the stack pointer. -/
def compared (i : Fin 16) : Bool := !(i.castLE (by decide) == rSp || i.castLE (by decide) == rA6)

/-- `gregs[i]`, of the registers that have a number. -/
def Reginfo.greg (ri : Reginfo) (i : Fin 16) : BitVec 32 := ri.gregs (i.castLE (by decide))

/-- A register `FPi` differs in one of its words. -/
def fpDiffers (m a : Reginfo) (i : Fin 8) : Bool :=
  m.fpregs.fFpregs i 0 != a.fpregs.fFpregs i 0 || m.fpregs.fFpregs i 1 != a.fpregs.fFpregs i 1 ||
    m.fpregs.fFpregs i 2 != a.fpregs.fFpregs i 2

/-- `reginfo_is_eq` -/
def reginfoIsEq (m a : Reginfo) : Bool :=
  m.gregs rPs == a.gregs rPs &&
    ((List.finRange 16).all fun i => !compared i || m.greg i == a.greg i) &&
    m.fpregs.fPcr == a.fpregs.fPcr && m.fpregs.fPsr == a.fpregs.fPsr &&
    (List.finRange 8).all fun i => !fpDiffers m a i

variable {m a : Reginfo}

theorem fpDiffers_eq_false {i : Fin 8} :
    fpDiffers m a i = false ↔ m.fpregs.fFpregs i = a.fpregs.fFpregs i := by
  simp [fpDiffers, funext_iff, Fin.forall_fin_succ, and_assoc]

/-- What the comparison looks at. -/
theorem reginfoIsEq_iff :
    reginfoIsEq m a = true ↔
      m.gregs rPs = a.gregs rPs ∧ (∀ i, compared i = true → m.greg i = a.greg i) ∧
        m.fpregs.fPcr = a.fpregs.fPcr ∧ m.fpregs.fPsr = a.fpregs.fPsr ∧
        m.fpregs.fFpregs = a.fpregs.fFpregs := by
  have hskip (i : Fin 16) : (!compared i || m.greg i == a.greg i) = true ↔
      (compared i = true → m.greg i = a.greg i) := by
    cases compared i <;> simp
  simp only [reginfoIsEq, Bool.and_eq_true, List.all_eq_true, hskip, beq_iff_eq, Bool.not_eq_true',
    fpDiffers_eq_false, List.mem_finRange, true_implies, funext_iff, and_assoc]

/-! ### The report -/

/-- `%x` -/
def hexOf (v : BitVec 32) : String := hex 1 v.toNat

/-- `%08x %08x %08x` -/
def fpWords (ri : Reginfo) (i : Fin 8) : String :=
  hex 8 (ri.fpregs.fFpregs i 0).toNat ++ " " ++ hex 8 (ri.fpregs.fFpregs i 1).toNat ++ " " ++
    hex 8 (ri.fpregs.fFpregs i 2).toNat

def gregLines (name : String) (m a : BitVec 32) : List String :=
  ["Mismatch: Register " ++ name ++ "\n",
    "master: [" ++ hexOf m ++ "] - apprentice: [" ++ hexOf a ++ "]\n"]

def fpLines (name m a : String) : List String :=
  ["Mismatch: Register " ++ name ++ "\n", "m: [" ++ m ++ "] != a: [" ++ a ++ "]\n"]

/-- `D0` to `A7` -/
def gregName (i : Fin 16) : String := (if i.val < 8 then "D" else "A") ++ toString (i.val % 8)

/-- `reginfo_dump_mismatch`, as the lines it prints. -/
def reginfoDumpMismatch (m a : Reginfo) : List String :=
  linesIf (m.gregs rPs != a.gregs rPs) (gregLines "PS" (m.gregs rPs) (a.gregs rPs)) ++
    ((List.finRange 16).flatMap fun i =>
      linesIf (compared i && m.greg i != a.greg i) (gregLines (gregName i) (m.greg i) (a.greg i))) ++
    linesIf (m.fpregs.fPcr != a.fpregs.fPcr)
      (fpLines "FPCR" (hex 4 m.fpregs.fPcr.toNat) (hex 4 a.fpregs.fPcr.toNat)) ++
    linesIf (m.fpregs.fPsr != a.fpregs.fPsr)
      (fpLines "FPSR" (hex 8 m.fpregs.fPsr.toNat) (hex 8 a.fpregs.fPsr.toNat)) ++
    (List.finRange 8).flatMap fun i =>
      linesIf (fpDiffers m a i) (fpLines ("FP" ++ toString i.val) (fpWords m i) (fpWords a i))

/-- **A mismatch is printed, and what matches is not.** -/
theorem explained_m68k : reginfoIsEq m a = false ↔ reginfoDumpMismatch m a ≠ [] := by
  have hgreg (b : Bool) (name : String) (x y : BitVec 32) :
      linesIf b (gregLines name x y) = [] ↔ b = false := linesIf_eq_nil (by simp [gregLines]) b
  have hfp (b : Bool) (name x y : String) : linesIf b (fpLines name x y) = [] ↔ b = false :=
    linesIf_eq_nil (by simp [fpLines]) b
  have hskip (i : Fin 16) : (!compared i || m.greg i == a.greg i) = true ↔
      (compared i && m.greg i != a.greg i) = false := by
    cases compared i <;> simp
  rw [← Bool.not_eq_true, not_iff_not]
  simp only [reginfoIsEq, reginfoDumpMismatch, Bool.and_eq_true, List.all_eq_true, hskip, beq_iff_eq,
    Bool.not_eq_true', List.append_eq_nil_iff, List.flatMap_eq_nil_iff, hgreg, hfp, bne_eq_false_iff_eq]

end Risu.M68k
