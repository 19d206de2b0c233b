import Risu.Ppc64.Float
import Risu.Ppc64.Reginfo

/-!
# Tolerated differences of floating-point registers (`reginfo_is_eq`, the FPR loop)

When `fpregs[i]` differs between master and apprentice, the source tries a disjunction of clauses.
Each clause is guarded by an option bit, and all but a few require that `i` is the target of the
instruction just executed and that this instruction is one of a list.  `fprClauses` is that
disjunction in the order of the source; an option whose clause is itself a disjunction
(`underflow`, `overflow`) contributes one entry for each of its alternatives.

* `Fpr` — what a clause can look at;
* `Clause`, `arith` — a guarded clause, and one about the target of an arithmetic instruction;
* `fprTolerated` — some clause applies.
-/

namespace Risu.Ppc64

open Insn

/-- What a clause can look at: the two instructions before the exception, the floating-point
registers of both sides, and the register in question. -/
structure Fpr where
  prevInsn : BitVec 32
  secondPrevInsn : BitVec 32
  m : Fin 32 → BitVec 64
  a : Fin 32 → BitVec 64
  i : Fin 32

namespace Fpr

def rt (c : Fpr) : Fin 32 := field c.prevInsn 21
def ra (c : Fpr) : Fin 32 := field c.prevInsn 16
def rb (c : Fpr) : Fin 32 := field c.prevInsn 11
def rc (c : Fpr) : Fin 32 := field c.prevInsn 6

/-- `m->fpregs[i]` -/
def mi (c : Fpr) : BitVec 64 := c.m c.i
/-- `a->fpregs[i]` -/
def ai (c : Fpr) : BitVec 64 := c.a c.i

/-- `negative(a->fpregs[i]) == negative(m->fpregs[i])` -/
def sameSign (c : Fpr) : Bool := negative c.ai == negative c.mi

/-- `exponent(m->fpregs[r])` -/
def em (c : Fpr) (r : Fin 32) : ℤ := exponent (c.m r)
/-- `exponent(a->fpregs[r])` -/
def ea (c : Fpr) (r : Fin 32) : ℤ := exponent (c.a r)

end Fpr

/-- A condition that counts only while its option bit is set. -/
structure Clause where
  opt : BitVec 32
  holds : Fpr → Bool

/-- A clause about the target of one of the listed instructions. -/
def arith (opt : BitVec 32) (insns : List Insn) (cond : Fpr → Bool) : Clause :=
  ⟨opt, fun c => isOneOf c.prevInsn insns && c.rt == c.i && cond c⟩

/-- The four multiply-add instructions. -/
def mulAdd : List Insn := [fmadd, fmsub, fnmadd, fnmsub]

/-- The four multiply-add instructions for single precision. -/
def mulAddS : List Insn := [fmadds, fmsubs, fnmadds, fnmsubs]

def loadsFloat : List Insn := [lfsux, lfsu, lfsx, lfs]

/-! ### Option bits -/

def fpOptIgnoreQNaNSigns : BitVec 32 := 0x00000001
def fpOptIgnoreQNaNValues : BitVec 32 := 0x00000002
def fpOptIgnoreQNaNDiffs : BitVec 32 := 0x00000004
def fpOptIgnoreQNaNLoadFloat : BitVec 32 := 0x00000008
def fpOptIgnoreNaNOperand : BitVec 32 := 0x00000010
def fpOptIgnoreOppositeInfOperands : BitVec 32 := 0x00000020
def fpOptIgnoreInfX0Operands : BitVec 32 := 0x00000040
def fpOptIgnoreDivZero : BitVec 32 := 0x00000080
def fpOptIgnoreUnderflow : BitVec 32 := 0x00000100
def fpOptIgnoreOverflow : BitVec 32 := 0x00000200
def fpOptIgnoreRound : BitVec 32 := 0x00000400
def fpOptIgnoreRoundS : BitVec 32 := 0x00000800
def fpOptIgnoreRsqrtNegative : BitVec 32 := 0x00001000
def fpOptIgnoreRsqrtNegativeZero : BitVec 32 := 0x00002000
def fpOptIgnoreRsqrtZero : BitVec 32 := 0x00004000
def fpOptIgnoreQnanFromInf : BitVec 32 := 0x00008000
def fpOptIgnoreQnanFromUnknown : BitVec 32 := 0x00010000
def fpOptIgnoreInfFromUnknown : BitVec 32 := 0x00020000
def fpOptIgnoreZeroSigns : BitVec 32 := 0x00040000
def fpOptIgnoreInfDivInf : BitVec 32 := 0x00080000
def fpOptIgnoreQNaNSNaN : BitVec 32 := 0x00100000
def fpOptIgnoreNaNUnknownOperands : BitVec 32 := 0x00200000

/-! ### Clauses for any instruction -/

def qnanSigns : Clause := ⟨fpOptIgnoreQNaNSigns, fun c =>
  anyqnan c.ai && anyqnan c.mi && magnitude c.ai == magnitude c.mi⟩

def qnanValues : Clause := ⟨fpOptIgnoreQNaNValues, fun c => neganyqnan c.ai && neganyqnan c.mi⟩

def qnanDiffs : Clause := ⟨fpOptIgnoreQNaNDiffs, fun c => anyqnan c.ai && anyqnan c.mi⟩

/-- About the target of the instruction before the previous one. -/
def qnanLoadFloat : Clause := ⟨fpOptIgnoreQNaNLoadFloat, fun c =>
  isOneOf c.secondPrevInsn loadsFloat && field c.secondPrevInsn 21 == c.i &&
    c.mi &&& 0xfff7ffffffffffff == c.ai &&& 0xfff7ffffffffffff &&
    c.mi &&& 0x0008000000000000 == 0⟩

def zeroSigns : Clause := ⟨fpOptIgnoreZeroSigns, fun c =>
  zero c.ai && zero c.mi && magnitude c.ai == magnitude c.mi⟩

/-! ### Underflow -/

def underflow : List (List Insn × (Fpr → Bool)) := [
  ([frsp, fmuls, fnmsubs, fmadds, fdivs, fmsubs, fnmadds, fadds, fsubs, fres], fun c =>
    -- m is smaller than float, a is tiny
    belowFltMin c.mi && c.sameSign && c.ea c.i < -126),
  ([fmsubs, fnmadds, fnmsubs, fmuls, fmadds], fun c =>
    c.sameSign && c.ea c.i < -126 &&
      (c.ra != c.i && c.rc != c.i && c.em c.ra + c.em c.rc < -126 || c.ra == c.i || c.rc == c.i)),
  ([fdivs], fun c =>
    c.sameSign && c.ea c.i < -126 &&
      (c.ra != c.i && c.rb != c.i && c.em c.ra - c.em c.rb ≤ -126 || c.ra == c.i || c.rb == c.i)),
  ([frsp], fun c =>
    c.rb != c.i && c.sameSign && c.ea c.i < -126 && c.em c.rb < -126),
  ([frsp], fun c =>
    -- underflow exception adds 192 to exponent on PPC but not Intel
    c.rb == c.i && c.sameSign && c.ea c.i < -126 && c.em c.i < -126 + 192),
  ([fmadd, fnmadd, fnmsub, fsub, fadd], fun c => c.mi == signz c.ai && c.ea c.i < -1022),
  ([fadds, fsubs], fun c => c.mi == signz c.ai && c.ea c.i < -126),
  ([fadds, fsubs], fun c =>
    c.sameSign && c.ea c.i < -126 && (c.ra == c.i || c.em c.ra < -126) &&
      (c.rb == c.i || c.em c.rb < -126)),
  ([fadds, fsubs], fun c =>
    c.sameSign && c.ea c.i < -126 && (c.em c.i - c.ea c.i - 192).natAbs ≤ 1),
  (fmul :: mulAdd, fun c =>
    c.ra != c.i && c.rc != c.i && c.ea c.i < -126 && c.em c.ra + c.em c.rc < -1022),
  (fmul :: mulAdd, fun c =>
    c.ra != c.i && c.rc != c.i && c.mi == signz c.ai && denormalized c.ai &&
      c.em c.ra + c.em c.rc < -1022),
  ([fmul], fun c => (c.ra == c.i || c.rc == c.i) && c.ea c.i < -126 && c.em c.ra < 0x200),
  ([fdiv], fun c =>
    c.ra != c.i && c.rb != c.i && c.sameSign && denormalized c.ai &&
      c.em c.ra - c.em c.rb < -1022),
  ([fdiv], fun c =>
    c.ra != c.i && c.rb != c.i && c.ai == signz c.mi && c.em c.ra - c.em c.rb < -1022),
  ([fdiv], fun c => c.ra != c.i && c.rb == c.i && c.ai == signz c.mi && c.ea c.ra < -126),
  ([fdiv], fun c => c.ra == c.i && c.rb != c.i && c.ai == signz c.mi),
  ([fdiv], fun c =>
    -- underflow exception adds 1536 on PPC but not on Intel
    (c.ra == c.i || c.rb == c.i) && c.ea c.i < -1022 && c.em c.i < -1022 + 1536),
  ([fdivs], fun c =>
    c.ra != c.i && c.rb != c.i && c.ai == signz c.mi && c.em c.ra - c.em c.rb < -126),
  ([fdivs], fun c =>
    c.ra != c.i && c.rb != c.i && c.mi == signz c.ai && c.em c.ra - c.em c.rb < -126),
  ([fdivs], fun c => c.ra != c.i && c.rb == c.i && c.ai == signz c.mi && denormalized (c.a c.ra)),
  ([fdivs], fun c => c.rb != c.i && c.ra == c.i && c.ai == signz c.mi),
  ([fres], fun c => c.ea c.i < -126 && (c.rb == c.i || c.em c.rb ≥ 126)),
  ([fres], fun c => c.rb == c.i && c.ea c.i < -126 && c.em c.i == c.ea c.i + 192),
  ([fsub, fmsub, fnmadd, fnmsub, fmadd, fmul, fadd, fdiv], fun c =>
    c.sameSign && denormalized c.ai && (abs64 (normalize c.ai - c.mi)).sle 0x20000),
  ([fmsub], fun c => c.mi == signz c.ai && denormalized c.ai),
  ([fadd], fun c => (c.ra == c.i || c.rb == c.i) && c.mi == signz c.ai && denormalized c.ai),
  ([fnmsubs, fsubs, fadds], fun c =>
    c.ea c.i < -126 && c.em c.i == c.ea c.i + 192 &&
      (abs64 (mantissa c.ai - mantissa c.mi)).sle 0x20000000),
  ([fmadds], fun c =>
    c.ra != c.i && c.rc != c.i && c.rb != c.i &&
      (zero (c.m c.ra) && denormalized (c.m c.rc) || zero (c.m c.rc) && denormalized (c.m c.ra)) &&
      zero c.mi && c.ai == c.m c.rb),
  (mulAddS, fun c =>
    (c.ra == c.i || c.ea c.ra < -126) && (c.rb == c.i || c.ea c.rb < -126) &&
      (c.rc == c.i || c.ea c.rc < -126))]

/-! ### Overflow -/

def overflow : List (List Insn × (Fpr → Bool)) := [
  (mulAddS ++ mulAdd, fun c =>
    infinite c.mi && isqnan c.ai && (c.ra == c.i || c.rb == c.i || c.rc == c.i)),
  ([fnmadds, fnmsubs, fmsubs, fmadds, fdivs, fadds, fmuls, fres, fsubs], fun c =>
    (infinite c.mi || atLeastFltMax c.mi) && c.ea c.i > 126),
  ([fsubs, fadds, fmuls] ++ mulAddS, fun c =>
    c.ai == signinf c.mi &&
      (c.ra != c.i && c.rb != c.i && denormalized (c.a c.rb) && c.em c.ra > 126 &&
          c.em c.i == c.ea c.ra - 192 &&
          (abs64 (mantissa (c.a c.ra) - mantissa c.mi)).sle 0x20000000 ||
        (c.ra != c.i && c.em c.ra > 126 || c.rb != c.i && c.em c.rb > 126) ||
        infinite c.ai && (c.ra == c.i || c.rb == c.i))),
  (fmuls :: mulAddS, fun c =>
    c.ra != c.i && c.rc != c.i && c.ai == signinf c.mi && c.em c.ra + c.em c.rc ≥ 126),
  (mulAddS, fun c => c.rb != c.i && c.sameSign && c.ea c.i ≥ 126 && c.em c.rb ≥ 126),
  (fmul :: mulAdd, fun c =>
    c.ra != c.i && c.rc != c.i && c.ai == signinf c.mi && c.em c.ra + c.em c.rc ≥ 1023),
  (mulAdd, fun c => c.ai == signinf c.mi && (c.rb == c.i || c.ra == c.i)),
  ([fnmadd], fun c => c.ra != c.i && c.rc == c.i && c.ai == signinf c.mi && c.em c.ra > 0),
  ([fdiv], fun c =>
    c.ra != c.i && c.rb != c.i && c.ai == signinf c.mi && c.em c.ra - c.em c.rb ≥ 1023),
  ([fdiv], fun c => (c.rb == c.i || c.ra == c.i) && c.ai == signinf c.mi),
  ([fdivs], fun c =>
    c.ra != c.i && c.rb != c.i && c.ai == signinf c.mi && c.em c.ra - c.em c.rb ≥ 126),
  ([fres], fun c => c.ai == signinf c.mi && (c.rb == c.i || -c.em c.rb ≥ 126)),
  ([frsp], fun c => c.rb != c.i && c.ai == signinf c.mi && c.em c.rb ≥ 126),
  ([frsp], fun c => c.rb == c.i && c.ai == signinf c.mi && infinite c.ai)]

/-! ### The clauses in order -/

/-- Clauses about special operands. -/
def operandClauses : List Clause := [
  arith fpOptIgnoreNaNOperand [fadd, fadds, fdiv, fdivs, fsub, fsubs] fun c =>
    c.ra != c.i && c.rb != c.i && (isNan (c.m c.ra) || isNan (c.m c.rb)),
  arith fpOptIgnoreNaNOperand [frsqrte, frsp] fun c => c.rb != c.i && isNan (c.m c.rb),
  arith fpOptIgnoreNaNOperand [fmul, fmuls] fun c =>
    c.ra != c.i && c.rc != c.i && (isNan (c.m c.ra) || isNan (c.m c.rc)),
  arith fpOptIgnoreNaNOperand (mulAdd ++ mulAddS) fun c =>
    c.ra != c.i && c.rb != c.i && c.rc != c.i &&
      (isNan (c.m c.ra) || isNan (c.m c.rb) || isNan (c.m c.rc)),
  arith fpOptIgnoreOppositeInfOperands [fadd, fadds] fun c =>
    c.ra != c.i && c.rb != c.i && infinite (c.m c.ra) && infinite (c.m c.rb) &&
      negative (c.m c.ra) != negative (c.m c.rb),
  arith fpOptIgnoreOppositeInfOperands [fsub, fsubs] fun c =>
    c.ra != c.i && c.rb != c.i && infinite (c.m c.ra) && infinite (c.m c.rb) &&
      negative (c.m c.ra) == negative (c.m c.rb),
  -- the source tests the operands once for both lists of instructions
  arith fpOptIgnoreOppositeInfOperands [fmsub, fmsubs, fnmsub, fnmsubs] fun c =>
    c.ra != c.i && c.rb != c.i && c.rc != c.i && c.em c.ra + c.em c.rc ≥ 2048 &&
      infinite (c.m c.rb) &&
      (negative (c.m c.ra) != negative (c.m c.rc)) == negative (c.m c.rb),
  arith fpOptIgnoreOppositeInfOperands [fmadd, fnmadd, fmadds, fnmadds] fun c =>
    c.ra != c.i && c.rb != c.i && c.rc != c.i && c.em c.ra + c.em c.rc ≥ 2048 &&
      infinite (c.m c.rb) &&
      (negative (c.m c.ra) != negative (c.m c.rc)) != negative (c.m c.rb),
  arith fpOptIgnoreInfX0Operands (fmul :: mulAdd ++ fmuls :: mulAddS) fun c =>
    c.ra != c.i && c.rc != c.i &&
      (infinite (c.m c.ra) && zero (c.m c.rc) || zero (c.m c.ra) && infinite (c.m c.rc)),
  -- includes 0/0 though different results may be expected
  arith fpOptIgnoreDivZero [fdivs, fdiv, fres] fun c => c.rb != c.i && zero (c.m c.rb)]

/-- The single-precision instructions whose rounding may differ. -/
def roundsS : List Insn := [fmuls, fnmsubs, fdivs, fmadds, fadds, fnmadds, frsp, fmsubs, fsubs]

/-- Clauses about rounding.  The bounds with an unsigned constant are unsigned comparisons. -/
def roundClauses : List Clause := [
  arith fpOptIgnoreRound [fnmadd, fmadd, fsub, fmul, fnmsub, fmsub, fdiv, fadd] fun c =>
    !anyqnan c.ai && !anyqnan c.mi && (abs64 (c.ai - c.mi)).sle 1,
  arith fpOptIgnoreRound [frsqrte, fres] fun c =>
    !anyqnan c.ai && !anyqnan c.mi && (abs64 (c.ai - c.mi)).sle (1#64 <<< 47),
  arith fpOptIgnoreRoundS roundsS fun c =>
    !anyqnan c.ai && !anyqnan c.mi && abs64 (c.ai - c.mi) ≤ 0x800000000,
  arith fpOptIgnoreRoundS roundsS fun c =>
    !anyqnan c.ai && !anyqnan c.mi && c.ea c.i < -126 && c.em c.i < -126 &&
      abs64 (c.ai - c.mi) ≤ 0x800000000000,
  arith fpOptIgnoreRoundS [fadds, fsubs] fun c =>
    c.ra != c.i && c.rb != c.i && !anyqnan c.ai && !anyqnan c.mi && c.em c.i < -126 &&
      c.ea c.i < -126 && c.ea c.ra < -126 && c.em c.rb < -126]

/-- Clauses about special results. -/
def resultClauses : List Clause := [
  arith fpOptIgnoreRsqrtNegative [frsqrte] fun c =>
    isqnan c.ai && (c.rb == c.i || negative (c.m c.rb)),
  arith fpOptIgnoreRsqrtNegativeZero [frsqrte] fun c =>
    c.rb != c.i && c.m c.rb == 0x8000000000000000 && c.ai == 0xfff0000000000000,
  arith fpOptIgnoreRsqrtZero [frsqrte] fun c =>
    c.rb != c.i && c.m c.rb == 0 && c.ai == 0x7ff0000000000000,
  arith fpOptIgnoreQnanFromInf (fmul :: mulAdd ++ [fnmadds]) fun c =>
    isqnan c.ai && (c.ra != c.i && infinite (c.a c.ra) || c.rc != c.i && infinite (c.a c.rc)),
  arith fpOptIgnoreQnanFromUnknown [fdiv] fun c =>
    isqnan c.ai && (c.ra == c.i || c.rb == c.i),
  arith fpOptIgnoreInfFromUnknown [frsqrte, fres] fun c => infinite c.ai && c.rb == c.i,
  arith fpOptIgnoreInfFromUnknown [fdivs] fun c =>
    infinite c.ai && (c.ra == c.i || c.rb == c.i),
  arith fpOptIgnoreInfFromUnknown (fmul :: mulAdd ++ fmuls :: mulAddS) fun c =>
    infinite c.ai && (c.ra == c.i || c.rc == c.i),
  zeroSigns,
  arith fpOptIgnoreInfDivInf [fdiv, fdivs] fun c => infinite (c.a c.ra) && infinite (c.a c.rb),
  arith fpOptIgnoreQNaNSNaN [fdiv] fun c => isNan c.ai && isNan c.mi,
  arith fpOptIgnoreNaNUnknownOperands (mulAdd ++ mulAddS) fun c =>
    isNan c.ai && (c.ra == c.i || c.rb == c.i || c.rc == c.i)]

def fprClauses : List Clause :=
  [qnanSigns, qnanValues, qnanDiffs, qnanLoadFloat] ++ operandClauses ++
    underflow.map (fun p => arith fpOptIgnoreUnderflow p.1 p.2) ++
    overflow.map (fun p => arith fpOptIgnoreOverflow p.1 p.2) ++ roundClauses ++ resultClauses

/-- The clause is switched on and applies. -/
def Clause.tolerates (c : Clause) (fpOpts : BitVec 32) (r : Fpr) : Bool :=
  fpOpts &&& c.opt != 0 && c.holds r

def fprTolerated (o : Options) (r : Fpr) : Bool :=
  masked o.fpregsMask r.i || fprClauses.any fun c => c.tolerates o.fpOpts r

end Risu.Ppc64
