import Mathlib.Data.List.FinRange
import Risu.Lib.Scan
import Risu.Ppc64.Tolerance

/-!
# Comparing register records (`reginfo_is_eq`)

The comparison is a scan over the apprentice's record `a`: each step compares one register with the
master's record `m`, copies a tolerated difference into `a`, and stops at one that is not.  The
tests for `div` divide, and an integer division that traps stops the scan as well.

* `gregStep`, `xerStep`, `lnkStep`, `ctrStep`, `ccrStep`, `mqStep`, `fpscrStep`, `fprStep`,
  `vrStep` — the steps, in the order of the source;
* `scan` — the whole comparison;
* `reginfoIsEq` — its verdict together with `a` as the call leaves it.
-/

namespace Risu.Ppc64

open Lib

variable {w nvr : ℕ}

/-- Why a comparison stops: a division traps, or a difference is not tolerated, with `a` as it is
at that point. -/
inductive Stop (w nvr : ℕ) where
  | trap
  | differ (a : Reginfo w nvr)

/-! ### Divisions -/

/-- `(((num / den) >> 31) + 1) & ~1`: the quotient needs more than 32 bits.  `none` if the division
traps. -/
def quotientOverflows (num : BitVec 64) (den : BitVec 32) : Option Bool :=
  if den = 0 ∨ num = BitVec.intMin 64 ∧ den = -1 then none
  else some (((num.sdiv (den.signExtend 64)).sshiftRight 31 + 1) &&& ~~~1 != 0)

namespace Reginfo

def rt (m : Reginfo w nvr) : Fin 32 := field m.prevInsn 21
def ra (m : Reginfo w nvr) : Fin 32 := field m.prevInsn 16
def rb (m : Reginfo w nvr) : Fin 32 := field m.prevInsn 11
def rc (m : Reginfo w nvr) : Fin 32 := field m.prevInsn 6

/-- General-purpose register `i`. -/
def gpr (r : Reginfo w nvr) (i : Fin 32) : BitVec w := r.gregs (gprIndex i)

end Reginfo

/-- The operands of a `div` are unknown, or its result is undefined. -/
def divUndefined (m : Reginfo w nvr) : Option Bool :=
  if m.ra = m.rt ∨ m.rb = m.rt ∨ m.gpr m.rb = 0 then some true
  else quotientOverflows
    (((m.gpr m.ra).setWidth 64 <<< 32) ||| (m.gregs risuMq).setWidth 64)
    ((m.gpr m.rb).setWidth 32)

/-- The same for `divs`. -/
def divsUndefined (m : Reginfo w nvr) : Option Bool :=
  if m.ra = m.rt ∨ m.rb = m.rt ∨ m.gpr m.rb = 0 then some true
  else quotientOverflows (((m.gpr m.ra).setWidth 32).signExtend 64) ((m.gpr m.rb).setWidth 32)

/-! ### General-purpose registers -/

/-- `mflr` may load an address relative to the pc. -/
def mflrRelative (m a : Reginfo w nvr) (i : Fin 32) : Bool :=
  Insn.mflr.matches m.prevInsn && m.rt == i &&
    m.gpr i - m.gregs risuNip == a.gpr i - a.gregs risuNip

/-- The last register written by an `lscbx`, when it is written in part. -/
def lscbxLast (m : Reginfo w nvr) : ℕ :=
  ((m.secondPrevInsn >>> 21).toNat + ((m.gregs risuXer &&& 0x7f).toNat - 1) / 4) % 32

def lscbxTail (m a : Reginfo w nvr) (i : Fin 32) : Bool :=
  Insn.lscbx.matches m.secondPrevInsn && m.gregs risuXer &&& 3 != 0 && i.val == lscbxLast m &&
    ((m.gpr i ^^^ a.gpr i).setWidth 32 >>> (32 - 8 * (m.gregs risuXer &&& 3).toNat)) == 0

/-- The alternatives of the GPR loop, tried in order. -/
def gprTolerated (m a : Reginfo w nvr) (i : Fin 32) : Option Bool := do
  if mflrRelative m a i then return true
  if ← (if Insn.div.matches m.prevInsn && m.rt == i then divUndefined m else some false) then
    return true
  if ← (if Insn.divs.matches m.prevInsn && m.rt == i then divsUndefined m else some false) then
    return true
  return lscbxTail m a i

/-- `local_gregs_mask`: on an illegal instruction the target of the instruction that follows is
left out. -/
def localGregsMask (o : Options) (a : Reginfo w nvr) : BitVec 32 :=
  if getRisuop a = RisuOp.sigill.code ∧ isOneOf a.nextInsn [Insn.addi, Insn.subf] = true then
    o.gregsMask &&& ~~~(1#32 <<< (31 - (field a.nextInsn 21).val))
  else o.gregsMask

def gregStep (mask : BitVec 32) (m a : Reginfo w nvr) (i : Fin 32) :
    Except (Stop w nvr) (Reginfo w nvr) :=
  if m.gpr i = a.gpr i then .ok a
  else if masked mask i then .ok a
  else
    match gprTolerated m a i with
    | none => .error .trap
    | some true => .ok (a.setGreg (gprIndex i) (m.gpr i))
    | some false => .error (.differ a)

/-! ### Special registers -/

/-- Two values are equal under a mask. -/
def sameUnder (mask : BitVec 32) (x y : BitVec w) : Bool :=
  x &&& mask.setWidth w == y &&& mask.setWidth w

def xerStep (o : Options) (m a : Reginfo w nvr) : Except (Stop w nvr) (Reginfo w nvr) :=
  if m.gregs risuXer = a.gregs risuXer then .ok a
  else if sameUnder o.xerMask (m.gregs risuXer) (a.gregs risuXer) then
    .ok (a.setGreg risuXer (m.gregs risuXer))
  else .error (.differ a)

/-- The link register is compared relative to the pc. -/
def lnkStep (m a : Reginfo w nvr) : Except (Stop w nvr) (Reginfo w nvr) :=
  if m.gregs risuLnk - m.gregs risuNip = a.gregs risuLnk - a.gregs risuNip then .ok a
  else .error (.differ a)

def ctrStep (m a : Reginfo w nvr) : Except (Stop w nvr) (Reginfo w nvr) :=
  if m.gregs risuCtr = a.gregs risuCtr then .ok a else .error (.differ a)

/-- A copy of a four-bit field of one mask into another field of `mask`. -/
def copyField (mask other : BitVec 32) (src dst : ℕ) : BitVec 32 :=
  (mask &&& ~~~(15#32 <<< (28 - dst))) ||| (((other >>> (28 - src)) &&& 15) <<< (28 - dst))

/-- The mask for CCR after the instruction just executed. -/
def ccrMaskAfter (o : Options) (m : Reginfo w nvr) : Option (BitVec 32) :=
  if Insn.fcmp.matches m.prevInsn then
    -- copy mask of cr1 to crf
    let crf := ((m.prevInsn >>> 21) &&& 0x1c).toNat
    some (copyField o.ccrMask o.ccrMask 4 crf &&& o.ccrMask)
  else if Insn.mcrfs.matches m.prevInsn then
    -- copy mask of bfa to bf
    let bf := ((m.prevInsn >>> 21) &&& 0x1c).toNat
    let bfa := ((m.prevInsn >>> 16) &&& 0x1c).toNat
    some (copyField o.ccrMask o.fpscrMask bfa bf &&& o.ccrMask)
  else if Insn.divDot.matches m.prevInsn then
    (divUndefined m).map fun undef => if undef then 0x1fffffff &&& o.ccrMask else o.ccrMask
  else some o.ccrMask

def ccrStep (o : Options) (m a : Reginfo w nvr) : Except (Stop w nvr) (Reginfo w nvr) :=
  if m.gregs risuCcr = a.gregs risuCcr then .ok a
  else
    match ccrMaskAfter o m with
    | none => .error .trap
    | some mask =>
      if sameUnder mask (m.gregs risuCcr) (a.gregs risuCcr) then
        .ok (a.setGreg risuCcr (m.gregs risuCcr))
      else .error (.differ a)

/-- The instructions after which MQ is undefined on a 601. -/
def writesMq : List Insn :=
  [Insn.mulli, Insn.mullw, Insn.mulhw, Insn.mulhwu, Insn.divw, Insn.divwu]

/-- The alternatives for MQ, tried in order; the first mismatch of a session is let slide. -/
def mqTolerated (o : Options) (signalCount : ℕ) (m a : Reginfo w nvr) : Option Bool := do
  if sameUnder o.mqMask (m.gregs risuMq) (a.gregs risuMq) then return true
  if ← (if Insn.div.matches m.prevInsn then divUndefined m else some false) then return true
  return o.use601 && isOneOf m.prevInsn writesMq || signalCount ≤ 1

def mqStep (o : Options) (signalCount : ℕ) (m a : Reginfo w nvr) :
    Except (Stop w nvr) (Reginfo w nvr) :=
  if m.gregs risuMq = a.gregs risuMq then .ok a
  else
    match mqTolerated o signalCount m a with
    | none => .error .trap
    | some true => .ok (a.setGreg risuMq (m.gregs risuMq))
    | some false => .error (.differ a)

def fpscrStep (o : Options) (m a : Reginfo w nvr) : Except (Stop w nvr) (Reginfo w nvr) :=
  if m.fpscr = a.fpscr then .ok a
  else if sameUnder o.fpscrMask m.fpscr a.fpscr then .ok { a with fpscr := m.fpscr }
  else .error (.differ a)

/-! ### Floating-point and vector registers -/

/-- What the clauses see at register `i`. -/
def fprAt (m a : Reginfo w nvr) (i : Fin 32) : Fpr where
  prevInsn := m.prevInsn
  secondPrevInsn := m.secondPrevInsn
  m := m.fpregs
  a := a.fpregs
  i := i

def fprStep (o : Options) (m a : Reginfo w nvr) (i : Fin 32) :
    Except (Stop w nvr) (Reginfo w nvr) :=
  if m.fpregs i = a.fpregs i then .ok a
  else if fprTolerated o (fprAt m a i) then .ok (a.setFpreg i (m.fpregs i))
  else .error (.differ a)

def vrStep (o : Options) (m a : Reginfo w nvr) (i : Fin nvr) :
    Except (Stop w nvr) (Reginfo w nvr) :=
  if ∀ j, m.vrregs i j = a.vrregs i j then .ok a
  else if masked o.vrregsMask i then .ok (a.setVrreg i (m.vrregs i))
  else .error (.differ a)

/-! ### The comparison -/

/-- The comparison after the GPR loop. -/
def scanRest (o : Options) (signalCount : ℕ) (m a : Reginfo w nvr) :
    Except (Stop w nvr) (Reginfo w nvr) := do
  let a ← xerStep o m a
  let a ← lnkStep m a
  let a ← ctrStep m a
  let a ← ccrStep o m a
  let a ← mqStep o signalCount m a
  let a ← fpscrStep o m a
  let a ← (List.finRange 32).foldlM (fprStep o m) a
  (List.finRange nvr).foldlM (vrStep o m) a

def scan (o : Options) (signalCount : ℕ) (m a : Reginfo w nvr) :
    Except (Stop w nvr) (Reginfo w nvr) := do
  let a ← (List.finRange 32).foldlM (gregStep (localGregsMask o a) m) a
  scanRest o signalCount m a

/-- `reginfo_is_eq`. -/
def reginfoIsEq (o : Options) (signalCount : ℕ) (m a : Reginfo w nvr) :
    Option (Bool × Reginfo w nvr) :=
  match scan o signalCount m a with
  | .ok a => some (true, a)
  | .error (.differ a) => some (false, a)
  | .error .trap => none

theorem reginfoIsEq_true {o : Options} {signalCount : ℕ} {m a a' : Reginfo w nvr} :
    reginfoIsEq o signalCount m a = some (true, a') ↔ scan o signalCount m a = .ok a' := by
  unfold reginfoIsEq
  split <;> simp_all

theorem reginfoIsEq_false {o : Options} {signalCount : ℕ} {m a a' : Reginfo w nvr} :
    reginfoIsEq o signalCount m a = some (false, a') ↔
      scan o signalCount m a = .error (.differ a') := by
  unfold reginfoIsEq
  split <;> simp_all

/-- The two records hold the same values in every register that is compared. -/
structure SameRegisters (m a : Reginfo w nvr) : Prop where
  gpr : ∀ i, m.gpr i = a.gpr i
  xer : m.gregs risuXer = a.gregs risuXer
  lnk : m.gregs risuLnk - m.gregs risuNip = a.gregs risuLnk - a.gregs risuNip
  ctr : m.gregs risuCtr = a.gregs risuCtr
  ccr : m.gregs risuCcr = a.gregs risuCcr
  mq : m.gregs risuMq = a.gregs risuMq
  fpscr : m.fpscr = a.fpscr
  fpregs : m.fpregs = a.fpregs
  vrregs : m.vrregs = a.vrregs

/-! ### An `mflr` executed at two places -/

/-- A record right after `mflr r3`, with everything at 0. -/
def mflrMaster : Reginfo 32 0 where
  secondPrevInsn := 0
  prevInsn := 0x7c6802a6
  faultingInsn := 0x5af0
  nextInsn := 0
  nip := 0
  gregs := fun _ => 0
  fpregs := fun _ => 0
  fpscr := 0
  vrregs := Fin.elim0

/-- The same code loaded 4 bytes higher: the pc, the link register and `r3` are moved. -/
def mflrApprentice : Reginfo 32 0 :=
  { mflrMaster with gregs := fun j => if j = risuNip ∨ j = risuLnk ∨ j.val = 3 then 4 else 0 }

theorem mflr_accepted :
    ∃ a, reginfoIsEq Options.default 1 mflrMaster mflrApprentice = some (true, a) := by
  have h : (reginfoIsEq Options.default 1 mflrMaster mflrApprentice).map Prod.fst = some true := rfl
  obtain ⟨⟨res, a⟩, hres, rfl⟩ := Option.map_eq_some_iff.mp h
  exact ⟨a, hres⟩

end Risu.Ppc64
