import Risu.Lib.BitField
import Risu.Gen.Perl
import Mathlib.Logic.Function.Basic

/-!
# Constants on Arm (`risugen_arm.pm`)

`write_mov_ri` in the three modes of the generator, and the moves of immediates as the architecture has
them.  The program counter is not one of the registers here.

* `writeMovRi16`, `writeMovRi` — the code that is written;
* `decodeArm`, `decodeThumb`, `decodeA64` — the instructions that the code is made of;
* `runMoves`, `runA64` — what the code does;
* `runMoves_writeMovRi`, `runA64_writeMovRi` — the register gets the number.
-/

namespace Risu.Gen.Arm

open Lib

/-! ### Code -/

/-- `$is_aarch64` and `$is_thumb`. -/
inductive Mode where
  | arm
  | thumb
  | aarch64
  deriving DecidableEq

/-- What `insn16` and `insn32` write. -/
inductive Code where
  | half (w : BitVec 16)
  | word (w : BitVec 32)

/-- 16 bits of an immediate; `none` where the generator dies. -/
def writeMovRi16 (m : Mode) (rd imm isMovt : BitVec 64) : Option (List Code) :=
  if m = .aarch64 then none
  else if imm &&& 0xffff0000#64 ≠ 0 then none
  else if m = .thumb then
    let imm4 := (imm &&& 0xf000#64) >>> 12
    let i := (imm &&& 0x0800#64) >>> 11
    let imm3 := (imm &&& 0x0700#64) >>> 8
    let imm8 := imm &&& 0x00ff#64
    some [.half (insn16 (0xf240#64 ||| (isMovt <<< 7) ||| (i <<< 10) ||| imm4)),
      .half (insn16 ((imm3 <<< 12) ||| (rd <<< 8) ||| imm8))]
  else
    let imm4 := (imm &&& 0xf000#64) >>> 12
    let imm12 := imm &&& 0x0fff#64
    some [.word (insn32 (0xe3000000#64 ||| (isMovt <<< 22) ||| (imm4 <<< 16) ||| (rd <<< 12) |||
      imm12))]

def writeMovRi (m : Mode) (rd : BitVec 64) (imm : ℤ) : Option (List Code) :=
  let highhalf := (uv imm >>> 16) &&& 0xffff#64
  if m = .aarch64 then
    if imm < 0 then
      -- MOVN, then MOVK
      some (.word (insn32 (0x92800000#64 ||| ((~~~uv imm &&& 0xffff#64) <<< 5) ||| rd)) ::
        if highhalf ≠ 0xffff#64 then
          [.word (insn32 (0xf2a00000#64 ||| (highhalf <<< 5) ||| rd))]
        else [])
    else
      -- MOVZ, then MOVK
      some (.word (insn32 (0x52800000#64 ||| ((uv imm &&& 0xffff#64) <<< 5) ||| rd)) ::
        if highhalf ≠ 0 then [.word (insn32 (0xf2a00000#64 ||| (highhalf <<< 5) ||| rd))] else [])
  else do
    let low ← writeMovRi16 m rd (uv imm &&& 0xffff#64) 0
    let high ← if highhalf ≠ 0 then writeMovRi16 m rd highhalf 1 else some []
    return low ++ high

/-! ### Moves of 16 bits (A32 and T32) -/

abbrev Regs := BitVec 4 → BitVec 32

/-- `MOVW`, or `MOVT` with `top`. -/
structure Mov16 where
  top : Bool
  rd : BitVec 4
  imm : BitVec 16

/-- Encoding A2 of `MOVW` and A1 of `MOVT`, executed always. -/
def decodeArm (w : BitVec 32) : Option Mov16 :=
  let rd := w.extractLsb' 12 4
  let imm := w.extractLsb' 16 4 ++ w.extractLsb' 0 12
  if rd = 15 then none
  else if w.extractLsb' 20 12 = 0xe30 then some ⟨false, rd, imm⟩
  else if w.extractLsb' 20 12 = 0xe34 then some ⟨true, rd, imm⟩
  else none

/-- Encoding T3 of `MOVW` and T1 of `MOVT`, from two halfwords. -/
def decodeThumb (w u : BitVec 16) : Option Mov16 :=
  let rd := u.extractLsb' 8 4
  let imm := w.extractLsb' 0 4 ++ w.extractLsb' 10 1 ++ u.extractLsb' 12 3 ++ u.extractLsb' 0 8
  if rd = 13 ∨ rd = 15 ∨ u.extractLsb' 15 1 ≠ 0 ∨ w.extractLsb' 11 5 ≠ 0x1e then none
  else if w.extractLsb' 4 6 = 0x24 then some ⟨false, rd, imm⟩
  else if w.extractLsb' 4 6 = 0x2c then some ⟨true, rd, imm⟩
  else none

def Mov16.exec (i : Mov16) (regs : Regs) : Regs :=
  Function.update regs i.rd
    (if i.top then i.imm ++ (regs i.rd).setWidth 16 else i.imm.setWidth 32)

/-- The code of a mode without 64-bit registers, from the start. -/
def runMoves (m : Mode) : List Code → Regs → Option Regs
  | [], regs => some regs
  | .word w :: code, regs =>
    if m = .arm then (decodeArm w).bind fun i => runMoves m code (i.exec regs) else none
  | .half w :: .half u :: code, regs =>
    if m = .thumb then (decodeThumb w u).bind fun i => runMoves m code (i.exec regs) else none
  | _, _ => none

/-! ### Moves of wide immediates (A64) -/

inductive MovWide where
  | movn
  | movz
  | movk
  deriving DecidableEq

structure MovA64 where
  op : MovWide
  /-- The register is one of 64 bits. -/
  sf : Bool
  hw : BitVec 2
  imm : BitVec 16
  rd : BitVec 5

def decodeA64 (w : BitVec 32) : Option MovA64 :=
  let sf := w.extractLsb' 31 1
  let opc := w.extractLsb' 29 2
  let hw := w.extractLsb' 21 2
  if w.extractLsb' 23 6 ≠ 0x25 ∨ sf = 0 ∧ 2 ≤ hw then none
  else
    (if opc = 0 then some .movn else if opc = 2 then some .movz else if opc = 3 then some .movk
      else none : Option MovWide).map
      fun op => ⟨op, sf == 1, hw, w.extractLsb' 5 16, w.extractLsb' 0 5⟩

abbrev RegsA64 := BitVec 5 → BitVec 64

/-- The value that is moved, from the one in the register. -/
def MovA64.value (i : MovA64) (old : BitVec 64) : BitVec 64 :=
  let pos := 16 * i.hw.toNat
  let v : BitVec 64 := match i.op with
    | .movz => i.imm.setWidth 64 <<< pos
    | .movn => ~~~(i.imm.setWidth 64 <<< pos)
    | .movk => (old &&& ~~~(0xffff#64 <<< pos)) ||| (i.imm.setWidth 64 <<< pos)
  if i.sf then v else (v.setWidth 32).setWidth 64

/-- Register 31 is the zero register. -/
def MovA64.exec (i : MovA64) (regs : RegsA64) : RegsA64 :=
  if i.rd = 31 then regs else Function.update regs i.rd (i.value (regs i.rd))

def runA64 : List Code → RegsA64 → Option RegsA64
  | [], regs => some regs
  | .word w :: code, regs => (decodeA64 w).bind fun i => runA64 code (i.exec regs)
  | .half _ :: _, _ => none

/-! ### 16 bits at a time -/

/-- The registers that an immediate can be moved to. -/
def Mode.canMove (m : Mode) (rd : BitVec 4) : Prop := rd ≠ 15 ∧ (m = .thumb → rd ≠ 13)

theorem imm_high (imm : BitVec 16) : imm.setWidth 64 &&& 0xffff0000#64 = 0 := by
  apply BitVec.eq_of_getLsbD_eq
  intro i hi
  rw [show 0xffff0000#64 = ones 64 16 <<< 16 from rfl, BitVec.getLsbD_and, getLsbD_ones_shiftLeft]
  by_cases hlow : i < 16
  · have hout : ¬ InField 16 16 i := fun h => by have := h.1; omega
    simp [hout]
  · simp [BitVec.getLsbD_of_ge imm i (by omega)]

theorem imm4_eq (imm : BitVec 16) :
    (imm.setWidth 64 &&& 0xf000#64) >>> 12 = (imm.extractLsb' 12 4).setWidth 64 := by
  rw [show 0xf000#64 = ones 64 4 <<< 12 from rfl, and_ones_shiftRight _ (by decide),
    extractLsb'_setWidth _ (by decide)]

theorem imm12_eq (imm : BitVec 16) :
    imm.setWidth 64 &&& 0x0fff#64 = (imm.extractLsb' 0 12).setWidth 64 := by
  have := and_ones_shiftRight (imm.setWidth 64) (show 0 + 12 ≤ 64 by decide)
  rwa [extractLsb'_setWidth _ (by decide)] at this

theorem imm12_parts (imm : BitVec 16) : imm.extractLsb' 12 4 ++ imm.extractLsb' 0 12 = imm :=
  BitVec.extractLsb'_append_extractLsb'

/-- `MOVT` is `MOVW` with one more bit. -/
def topBit (top : Bool) : BitVec 64 := if top then 1#64 else 0#64

theorem decodeArm_move {rd : BitVec 4} (h : rd ≠ 15) (imm : BitVec 16) (top : Bool) :
    decodeArm (insn32 (0xe3000000#64 ||| (topBit top <<< 22) |||
      ((imm.extractLsb' 12 4).setWidth 64 <<< 16) ||| (rd.setWidth 64 <<< 12) |||
      (imm.extractLsb' 0 12).setWidth 64)) = some ⟨top, rd, imm⟩ := by
  set w := insn32 (0xe3000000#64 ||| (topBit top <<< 22) |||
    ((imm.extractLsb' 12 4).setWidth 64 <<< 16) ||| (rd.setWidth 64 <<< 12) |||
    (imm.extractLsb' 0 12).setWidth 64) with hw
  have hrd : w.extractLsb' 12 4 = rd := by
    cases top <;> simp [hw, insn32, topBit, BitVec.extractLsb'_or]
  have himm4 : w.extractLsb' 16 4 = imm.extractLsb' 12 4 := by
    cases top <;> simp [hw, insn32, topBit, BitVec.extractLsb'_or]
  have himm12 : w.extractLsb' 0 12 = imm.extractLsb' 0 12 := by
    cases top <;> simp [hw, insn32, topBit, BitVec.extractLsb'_or]
  have hop : w.extractLsb' 20 12 = if top then 0xe34 else 0xe30 := by
    cases top <;> simp [hw, insn32, topBit, BitVec.extractLsb'_or]
  rw [decodeArm, hrd, himm4, himm12, hop, imm12_parts, if_neg h]
  cases top <;> rfl

theorem imm8_parts (imm : BitVec 16) : imm.extractLsb' 12 4 ++ imm.extractLsb' 11 1 ++
    imm.extractLsb' 8 3 ++ imm.extractLsb' 0 8 = imm := by
  rw [BitVec.extractLsb'_append_extractLsb'_eq_extractLsb' (by rfl),
    BitVec.extractLsb'_append_extractLsb'_eq_extractLsb' (by rfl),
    BitVec.extractLsb'_append_extractLsb'_eq_extractLsb' (by rfl)]
  exact BitVec.extractLsb'_eq_self

theorem decodeThumb_move {rd : BitVec 4} (h : rd ≠ 13) (h' : rd ≠ 15) (imm : BitVec 16) (top : Bool) :
    decodeThumb
      (insn16 (0xf240#64 ||| (topBit top <<< 7) ||| ((imm.extractLsb' 11 1).setWidth 64 <<< 10) |||
        (imm.extractLsb' 12 4).setWidth 64))
      (insn16 (((imm.extractLsb' 8 3).setWidth 64 <<< 12) ||| (rd.setWidth 64 <<< 8) |||
        (imm.extractLsb' 0 8).setWidth 64)) = some ⟨top, rd, imm⟩ := by
  set w := insn16 (0xf240#64 ||| (topBit top <<< 7) |||
    ((imm.extractLsb' 11 1).setWidth 64 <<< 10) ||| (imm.extractLsb' 12 4).setWidth 64) with hw
  set u := insn16 (((imm.extractLsb' 8 3).setWidth 64 <<< 12) ||| (rd.setWidth 64 <<< 8) |||
    (imm.extractLsb' 0 8).setWidth 64) with hu
  have hrd : u.extractLsb' 8 4 = rd := by simp [hu, insn16, BitVec.extractLsb'_or]
  have himm3 : u.extractLsb' 12 3 = imm.extractLsb' 8 3 := by
    simp [hu, insn16, BitVec.extractLsb'_or]
  have himm8 : u.extractLsb' 0 8 = imm.extractLsb' 0 8 := by
    simp [hu, insn16, BitVec.extractLsb'_or]
  have hzero : u.extractLsb' 15 1 = 0 := by simp [hu, insn16, BitVec.extractLsb'_or]
  have himm4 : w.extractLsb' 0 4 = imm.extractLsb' 12 4 := by
    cases top <;> simp [hw, insn16, topBit, BitVec.extractLsb'_or]
  have hi : w.extractLsb' 10 1 = imm.extractLsb' 11 1 := by
    cases top <;> simp [hw, insn16, topBit, BitVec.extractLsb'_or]
  have hprefix : w.extractLsb' 11 5 = 0x1e := by
    cases top <;> simp [hw, insn16, topBit, BitVec.extractLsb'_or]
  have hop : w.extractLsb' 4 6 = if top then 0x2c else 0x24 := by
    cases top <;> simp [hw, insn16, topBit, BitVec.extractLsb'_or]
  have hallowed : ¬(rd = 13 ∨ rd = 15 ∨ (0 : BitVec 1) ≠ 0 ∨ (0x1e : BitVec 5) ≠ 0x1e) := by
    rintro (hc | hc | hc | hc)
    · exact h hc
    · exact h' hc
    · exact hc rfl
    · exact hc rfl
  rw [decodeThumb, hrd, himm3, himm8, hzero, himm4, hi, hprefix, hop, imm8_parts, if_neg hallowed]
  cases top <;> rfl

theorem i_eq (imm : BitVec 16) :
    (imm.setWidth 64 &&& 0x0800#64) >>> 11 = (imm.extractLsb' 11 1).setWidth 64 := by
  rw [show 0x0800#64 = ones 64 1 <<< 11 from rfl, and_ones_shiftRight _ (by decide),
    extractLsb'_setWidth _ (by decide)]

theorem imm3_eq (imm : BitVec 16) :
    (imm.setWidth 64 &&& 0x0700#64) >>> 8 = (imm.extractLsb' 8 3).setWidth 64 := by
  rw [show 0x0700#64 = ones 64 3 <<< 8 from rfl, and_ones_shiftRight _ (by decide),
    extractLsb'_setWidth _ (by decide)]

theorem imm8_eq (imm : BitVec 16) :
    imm.setWidth 64 &&& 0x00ff#64 = (imm.extractLsb' 0 8).setWidth 64 := by
  have := and_ones_shiftRight (imm.setWidth 64) (show 0 + 8 ≤ 64 by decide)
  rwa [extractLsb'_setWidth _ (by decide)] at this

/-- **16 bits are moved**, to one half or to the other. -/
theorem writeMovRi16_moves {m : Mode} (hm : m ≠ .aarch64) {rd : BitVec 4} (h : m.canMove rd)
    (imm : BitVec 16) (top : Bool) :
    ∃ code, writeMovRi16 m (rd.setWidth 64) (imm.setWidth 64) (topBit top) = some code ∧
      ∀ rest regs, runMoves m (code ++ rest) regs =
        runMoves m rest ((Mov16.mk top rd imm).exec regs) := by
  rw [writeMovRi16, if_neg hm, if_neg (not_not.mpr (imm_high imm))]
  cases m with
  | arm =>
    refine ⟨_, if_neg (by decide), fun rest regs => ?_⟩
    rw [List.singleton_append, runMoves, if_pos rfl, imm4_eq, imm12_eq,
      decodeArm_move h.1 imm top]
    rfl
  | thumb =>
    refine ⟨_, if_pos rfl, fun rest regs => ?_⟩
    show runMoves .thumb (.half _ :: .half _ :: rest) regs = _
    rw [runMoves, if_pos rfl, imm4_eq, i_eq, imm3_eq, imm8_eq,
      decodeThumb_move (h.2 rfl) h.1 imm top]
    rfl
  | aarch64 => exact absurd rfl hm

/-- The halves of a number of 32 bits. -/
theorem highhalf_eq (x : BitVec 64) :
    (x >>> 16) &&& 0xffff#64 = ((x >>> 16).setWidth 16).setWidth 64 :=
  and_ffff _

theorem getLsbD_highhalf (x : BitVec 64) {i : ℕ} (hi : 16 ≤ i) (hi' : i < 32) :
    ((x >>> 16).setWidth 16).getLsbD (i - 16) = x.getLsbD i := by
  have hsub : 16 + (i - 16) = i := by omega
  have hlt : i - 16 < 16 := by omega
  rw [BitVec.getLsbD_setWidth, BitVec.getLsbD_ushiftRight, hsub, decide_eq_true hlt, Bool.true_and]

/-- The second half as a number of 16 bits. -/
theorem highhalf_of_eq {x : BitVec 64} {v : BitVec 16}
    (h : ((x >>> 16).setWidth 16).setWidth 64 = v.setWidth 64) : (x >>> 16).setWidth 16 = v := by
  have := congrArg (BitVec.setWidth 16) h
  rwa [BitVec.setWidth_setWidth_of_le _ (by decide), BitVec.setWidth_eq,
    BitVec.setWidth_setWidth_of_le _ (by decide), BitVec.setWidth_eq] at this

theorem halves (x : BitVec 64) :
    ((x >>> 16).setWidth 16 ++ x.setWidth 16 : BitVec 32) = x.setWidth 32 := by
  apply BitVec.eq_of_getLsbD_eq
  intro i hi
  rw [BitVec.getLsbD_append]
  by_cases hlow : i < 16
  · simp [hi, hlow]
  · rw [if_neg hlow, getLsbD_highhalf x (by omega) hi, BitVec.getLsbD_setWidth, decide_eq_true hi,
      Bool.true_and]

/-- **The register gets the number**, and no other register changes. -/
theorem runMoves_writeMovRi {m : Mode} (hm : m ≠ .aarch64) {rd : BitVec 4} (h : m.canMove rd)
    {imm : ℤ} (himm : -2 ^ 31 ≤ imm) (himm' : imm < 2 ^ 32) (regs : Regs) :
    ∃ code, writeMovRi m (rd.setWidth 64) imm = some code ∧
      runMoves m code regs = some (Function.update regs rd (BitVec.ofInt 32 imm)) := by
  set x := uv imm with hx
  have hvalue : ((x >>> 16).setWidth 16 ++ x.setWidth 16 : BitVec 32) = BitVec.ofInt 32 imm := by
    rw [halves, hx, setWidth_uv himm himm']
  obtain ⟨low, hlow, hrunlow⟩ := writeMovRi16_moves hm h (x.setWidth 16) false
  obtain ⟨high, hhigh, hrunhigh⟩ := writeMovRi16_moves hm h ((x >>> 16).setWidth 16) true
  rw [writeMovRi, if_neg hm, ← hx, highhalf_eq, and_ffff,
    show writeMovRi16 m (rd.setWidth 64) ((x.setWidth 16).setWidth 64) 0 = some low from hlow,
    Option.bind_eq_bind, Option.bind_some]
  by_cases hzero : ((x >>> 16).setWidth 16).setWidth 64 = 0
  · have hhalf : (x >>> 16).setWidth 16 = 0#16 := highhalf_of_eq hzero
    have hzext : (0#16 ++ x.setWidth 16 : BitVec 32) = (x.setWidth 16).setWidth 32 :=
      (BitVec.setWidth_eq_append (by decide)).symm
    rw [hhalf, hzext] at hvalue
    refine ⟨low, by rw [if_neg (not_not.mpr hzero)]; exact congrArg some (List.append_nil low), ?_⟩
    rw [← List.append_nil low, hrunlow, runMoves, Mov16.exec]
    exact congrArg (fun v => some (Function.update regs rd v)) hvalue
  · refine ⟨low ++ high, ?_, ?_⟩
    · rw [if_pos hzero,
        show writeMovRi16 m (rd.setWidth 64) (((x >>> 16).setWidth 16).setWidth 64) 1 = some high
          from hhigh]
      rfl
    · rw [hrunlow, ← List.append_nil high, hrunhigh, runMoves, Mov16.exec, Mov16.exec]
      simp only [Function.update_self, Function.update_idem, if_true]
      rw [if_neg Bool.false_ne_true, BitVec.setWidth_setWidth_of_le _ (by decide),
        BitVec.setWidth_eq, hvalue]

/-! ### Wide immediates -/

/-- The fixed bits of the three moves that are written. -/
def wideBits : MovWide → BitVec 64
  | .movn => 0x92800000#64
  | .movz => 0x52800000#64
  | .movk => 0xf2a00000#64

/-- The moves as they are written: `MOVZ` to a register of 32 bits, `MOVK` to the second half. -/
def wideMove (op : MovWide) (imm : BitVec 16) (rd : BitVec 5) : MovA64 where
  op := op
  sf := op ≠ .movz
  hw := if op = .movk then 1 else 0
  imm := imm
  rd := rd

theorem decodeA64_wide (op : MovWide) (imm : BitVec 16) (rd : BitVec 5) :
    decodeA64 (insn32 (wideBits op ||| (imm.setWidth 64 <<< 5) ||| rd.setWidth 64)) =
      some (wideMove op imm rd) := by
  set w := insn32 (wideBits op ||| (imm.setWidth 64 <<< 5) ||| rd.setWidth 64) with hw
  have hrd : w.extractLsb' 0 5 = rd := by
    cases op <;> simp [hw, insn32, wideBits, BitVec.extractLsb'_or]
  have himm : w.extractLsb' 5 16 = imm := by
    cases op <;> simp [hw, insn32, wideBits, BitVec.extractLsb'_or]
  have hhw : w.extractLsb' 21 2 = if op = .movk then 1 else 0 := by
    cases op <;> simp [hw, insn32, wideBits, BitVec.extractLsb'_or]
  have hclass : w.extractLsb' 23 6 = 0x25 := by
    cases op <;> simp [hw, insn32, wideBits, BitVec.extractLsb'_or]
  have hopc : w.extractLsb' 29 2 = if op = .movn then 0 else if op = .movz then 2 else 3 := by
    cases op <;> simp [hw, insn32, wideBits, BitVec.extractLsb'_or]
  have hsf : w.extractLsb' 31 1 = if op = .movz then 0 else 1 := by
    cases op <;> simp [hw, insn32, wideBits, BitVec.extractLsb'_or]
  rw [decodeA64, hrd, himm, hhw, hclass, hopc, hsf]
  cases op <;> rfl

theorem runA64_wide (op : MovWide) (imm : BitVec 16) {rd : BitVec 5} (h : rd ≠ 31)
    (code : List Code) (regs : RegsA64) :
    runA64 (.word (insn32 (wideBits op ||| (imm.setWidth 64 <<< 5) ||| rd.setWidth 64)) :: code)
        regs =
      runA64 code (Function.update regs rd ((wideMove op imm rd).value (regs rd))) := by
  rw [runA64, decodeA64_wide]
  show runA64 code (if rd = 31 then regs else _) = _
  rw [if_neg h]
  rfl

/-- The bits of `MOVK` to the second half. -/
theorem getLsbD_movk (imm : BitVec 16) (rd : BitVec 5) (old : BitVec 64) {i : ℕ} (hi : i < 64) :
    ((wideMove .movk imm rd).value old).getLsbD i =
      if 16 ≤ i ∧ i < 32 then imm.getLsbD (i - 16) else old.getLsbD i := by
  show ((old &&& ~~~(0xffff#64 <<< 16)) ||| (imm.setWidth 64 <<< 16)).getLsbD i = _
  have hmask : (0xffff#64 <<< 16).getLsbD i = decide (InField 16 16 i) := by
    have := getLsbD_ones_shiftLeft (n := 64) 16 16 i
    rwa [decide_eq_true hi, Bool.true_and] at this
  rw [BitVec.getLsbD_or, BitVec.getLsbD_and, BitVec.getLsbD_not, hmask, BitVec.getLsbD_shiftLeft,
    BitVec.getLsbD_setWidth]
  by_cases hin : 16 ≤ i ∧ i < 32
  · have hfield : InField 16 16 i := ⟨hin.1, by omega⟩
    have hlt : i - 16 < 64 := by omega
    have hge : ¬ i < 16 := by omega
    simp [hin, hfield, hlt, hge, hi]
  · have hfield : ¬ InField 16 16 i := fun h => hin ⟨h.1, by have := h.2; omega⟩
    rw [if_neg hin, decide_eq_false hfield]
    rcases (by omega : i < 16 ∨ 32 ≤ i) with hlow | hhigh
    · simp [hi, hlow]
    · have hout : imm.getLsbD (i - 16) = false := BitVec.getLsbD_of_ge imm _ (by omega)
      simp [hi, hout]

theorem getLsbD_movn (x : BitVec 64) (rd : BitVec 5) (old : BitVec 64) {i : ℕ} (hi : i < 64) :
    ((wideMove .movn ((~~~x).setWidth 16) rd).value old).getLsbD i =
      (decide (16 ≤ i) || x.getLsbD i) := by
  show (~~~(((~~~x).setWidth 16).setWidth 64 <<< 0)).getLsbD i = _
  rw [BitVec.shiftLeft_zero, BitVec.getLsbD_not, BitVec.getLsbD_setWidth, BitVec.getLsbD_setWidth,
    BitVec.getLsbD_not]
  by_cases hlow : i < 16
  · have hge : ¬ 16 ≤ i := by omega
    simp [hi, hlow, hge]
  · have hge : 16 ≤ i := by omega
    simp [hi, hlow, hge]

theorem getLsbD_movz (x : BitVec 64) (rd : BitVec 5) (old : BitVec 64) {i : ℕ} (hi : i < 64) :
    ((wideMove .movz (x.setWidth 16) rd).value old).getLsbD i =
      (decide (i < 16) && x.getLsbD i) := by
  show (((((x.setWidth 16).setWidth 64 <<< 0 : BitVec 64)).setWidth 32).setWidth 64).getLsbD i = _
  rw [BitVec.shiftLeft_zero, BitVec.getLsbD_setWidth, BitVec.getLsbD_setWidth,
    BitVec.getLsbD_setWidth, BitVec.getLsbD_setWidth]
  by_cases hlow : i < 16
  · have hlt : i < 32 := by omega
    simp [hi, hlow, hlt]
  · simp [hlow]

section wide

variable {x : BitVec 64} {rd : BitVec 5} {old : BitVec 64}

/-- `MOVN`, then `MOVK`. -/
theorem movn_movk_value (hhigh : ∀ i, 32 ≤ i → i < 64 → x.getLsbD i = true) :
    (wideMove .movk ((x >>> 16).setWidth 16) rd).value
      ((wideMove .movn ((~~~x).setWidth 16) rd).value old) = x := by
  apply BitVec.eq_of_getLsbD_eq
  intro i hi
  rw [getLsbD_movk _ _ _ hi, getLsbD_movn _ _ _ hi]
  split_ifs with hin
  · exact getLsbD_highhalf x hin.1 hin.2
  · by_cases hge : 16 ≤ i
    · rw [decide_eq_true hge, Bool.true_or, hhigh i (by omega) hi]
    · rw [decide_eq_false hge, Bool.false_or]

/-- `MOVN` alone. -/
theorem movn_value (hhigh : ∀ i, 32 ≤ i → i < 64 → x.getLsbD i = true)
    (hones : (x >>> 16).setWidth 16 = 0xffff#16) :
    (wideMove .movn ((~~~x).setWidth 16) rd).value old = x := by
  apply BitVec.eq_of_getLsbD_eq
  intro i hi
  rw [getLsbD_movn _ _ _ hi]
  by_cases hge : 16 ≤ i
  · have hbit : x.getLsbD i = true := by
      by_cases hlt : i < 32
      · rw [← getLsbD_highhalf x hge hlt, hones, show 0xffff#16 = ones 16 16 from rfl, getLsbD_ones,
          decide_eq_true (show i - 16 < 16 by omega)]
        rfl
      · exact hhigh i (by omega) hi
    rw [hbit, Bool.or_true]
  · rw [decide_eq_false hge, Bool.false_or]

/-- `MOVZ`, then `MOVK`. -/
theorem movz_movk_value (hhigh : ∀ i, 32 ≤ i → i < 64 → x.getLsbD i = false) :
    (wideMove .movk ((x >>> 16).setWidth 16) rd).value
      ((wideMove .movz (x.setWidth 16) rd).value old) = x := by
  apply BitVec.eq_of_getLsbD_eq
  intro i hi
  rw [getLsbD_movk _ _ _ hi, getLsbD_movz _ _ _ hi]
  split_ifs with hin
  · exact getLsbD_highhalf x hin.1 hin.2
  · by_cases hlow : i < 16
    · rw [decide_eq_true hlow, Bool.true_and]
    · rw [decide_eq_false hlow, Bool.false_and, hhigh i (by omega) hi]

/-- `MOVZ` alone. -/
theorem movz_value (hhigh : ∀ i, 32 ≤ i → i < 64 → x.getLsbD i = false)
    (hzero : (x >>> 16).setWidth 16 = 0#16) :
    (wideMove .movz (x.setWidth 16) rd).value old = x := by
  apply BitVec.eq_of_getLsbD_eq
  intro i hi
  rw [getLsbD_movz _ _ _ hi]
  by_cases hlow : i < 16
  · rw [decide_eq_true hlow, Bool.true_and]
  · have hbit : x.getLsbD i = false := by
      by_cases hlt : i < 32
      · rw [← getLsbD_highhalf x (by omega) hlt, hzero, BitVec.getLsbD_zero]
      · exact hhigh i (by omega) hi
    rw [hbit, Bool.and_false]

end wide

/-- **The register gets the number**, and no other register changes. -/
theorem runA64_writeMovRi {rd : BitVec 5} (h : rd ≠ 31) {imm : ℤ} (himm : -2 ^ 31 ≤ imm)
    (himm' : imm < 2 ^ 32) (regs : RegsA64) :
    ∃ code, writeMovRi .aarch64 (rd.setWidth 64) imm = some code ∧
      runA64 code regs = some (Function.update regs rd (BitVec.ofInt 64 imm)) := by
  have hsign : ∀ i, 32 ≤ i → i < 64 → (uv imm).getLsbD i = decide (imm < 0) :=
    fun i => getLsbD_uv_high (by omega) himm'
  rw [← uv_eq_ofInt (by omega) (by omega)]
  set x := uv imm with hx
  rw [writeMovRi, if_pos rfl, ← hx, highhalf_eq, and_ffff, and_ffff]
  by_cases hneg : imm < 0
  · rw [decide_eq_true hneg] at hsign
    refine ⟨_, if_pos hneg, ?_⟩
    rw [show 0x92800000#64 = wideBits .movn from rfl, runA64_wide .movn _ h]
    split
    · rw [show 0xf2a00000#64 = wideBits .movk from rfl, runA64_wide .movk _ h, runA64,
        Function.update_idem, Function.update_self, movn_movk_value hsign]
    · rename_i hones
      rw [runA64, movn_value hsign (highhalf_of_eq (not_not.mp hones))]
  · rw [decide_eq_false hneg] at hsign
    refine ⟨_, if_neg hneg, ?_⟩
    rw [show 0x52800000#64 = wideBits .movz from rfl, runA64_wide .movz _ h]
    split
    · rw [show 0xf2a00000#64 = wideBits .movk from rfl, runA64_wide .movk _ h, runA64,
        Function.update_idem, Function.update_self, movz_movk_value hsign]
    · rename_i hzero
      rw [runA64, movz_value hsign (highhalf_of_eq (not_not.mp hzero))]

end Risu.Gen.Arm
