import Risu.Gen.Arm

/-!
# Instructions of Arm

The instructions that the code for addresses is made of, in the three modes, besides the moves of
immediates.  The program counter is not one of the registers here.

* `Insn`, `decodeWord`, `decodeWide`, `decodeNarrow` — A32 and T32;
* `InsnA64`, `decodeWordA64` — A64, with what SVE adds for addresses;
* `run32`, `run64` — what code does, with `OP_GETMEMBLOCK` adding the address of the memory block;
* `run32_append`, `run64_append`, `run32_moves`, `run64_moves` — code behind code, and moves.
-/

namespace Risu.Gen.Arm

open Lib

/-! ### A32 and T32 -/

inductive Insn where
  | mov16 (i : Mov16)
  | mov (rd rm : BitVec 4)
  /-- `SUB` with the second operand shifted to the left. -/
  | sub (rd rn rm : BitVec 4) (shift : BitVec 5)
  | risuop (op : BitVec 4)

/-- A word of A32. -/
def decodeWord (w : BitVec 32) : Option Insn :=
  let op := w.extractLsb' 20 12
  let rn := w.extractLsb' 16 4
  let rd := w.extractLsb' 12 4
  let rm := w.extractLsb' 0 4
  match decodeArm w with
  | some i => some (.mov16 i)
  | none =>
    if op = 0xe7f ∧ w.extractLsb' 4 16 = 0xe5af then some (.risuop (w.extractLsb' 0 4))
    else if rd = 15 ∨ rm = 15 then none
    else if op = 0xe1a ∧ rn = 0 ∧ w.extractLsb' 4 8 = 0 then some (.mov rd rm)
    else if op = 0xe04 ∧ w.extractLsb' 4 3 = 0 ∧ rn ≠ 15 then
      some (.sub rd rn rm (w.extractLsb' 7 5))
    else none

/-- Two halfwords of T32. -/
def decodeWide (w u : BitVec 16) : Option Insn :=
  let op := w.extractLsb' 4 12
  let rn := w.extractLsb' 0 4
  let rd := u.extractLsb' 8 4
  let rm := u.extractLsb' 0 4
  match decodeThumb w u with
  | some i => some (.mov16 i)
  | none =>
    if rd = 13 ∨ rd = 15 ∨ rm = 13 ∨ rm = 15 then none
    else if op = 0xea4 ∧ rn = 15 ∧ u.extractLsb' 12 4 = 0 ∧ u.extractLsb' 4 4 = 0 then some (.mov rd rm)
    else if op = 0xeba ∧ u.extractLsb' 15 1 = 0 ∧ u.extractLsb' 4 2 = 0 ∧ rn ≠ 13 ∧ rn ≠ 15 then
      some (.sub rd rn rm (u.extractLsb' 12 3 ++ u.extractLsb' 6 2))
    else none

/-- A halfword of T32. -/
def decodeNarrow (w : BitVec 16) : Option Insn :=
  if w.extractLsb' 4 12 = 0xdee then some (.risuop (w.extractLsb' 0 4)) else none

/-- The first halfword of two. -/
def isWide (w : BitVec 16) : Bool := 0x1d ≤ w.extractLsb' 11 5

/-- `OP_GETMEMBLOCK` -/
def opGetmemblock : BitVec 4 := 3

def Insn.exec (block : BitVec 32) (regs : Regs) : Insn → Regs
  | mov16 i => i.exec regs
  | mov rd rm => Function.update regs rd (regs rm)
  | sub rd rn rm shift => Function.update regs rd (regs rn - regs rm <<< shift.toNat)
  | risuop op => if op = opGetmemblock then Function.update regs 0 (regs 0 + block) else regs

/-- The code of a mode without 64-bit registers, with the memory block at an address. -/
def run32 (m : Mode) (block : BitVec 32) : List Code → Regs → Option Regs
  | [], regs => some regs
  | .word w :: code, regs =>
    if m = .arm then (decodeWord w).bind fun i => run32 m block code (i.exec block regs) else none
  | .half w :: .half u :: code, regs =>
    if m ≠ .thumb then none
    else if isWide w then (decodeWide w u).bind fun i => run32 m block code (i.exec block regs)
    else (decodeNarrow w).bind fun i => run32 m block (.half u :: code) (i.exec block regs)
  | .half w :: code, regs =>
    if m ≠ .thumb ∨ isWide w then none
    else (decodeNarrow w).bind fun i => run32 m block code (i.exec block regs)

/-! ### A64 -/

inductive InsnA64 where
  | mov (i : MovA64)
  /-- `ADD` of an immediate. -/
  | addi (rd rn : BitVec 5) (imm : BitVec 12)
  /-- `SUB` with the second operand shifted, to the left or to the right with its sign. -/
  | sub (rd rn rm : BitVec 5) (right : Bool) (shift : BitVec 6)
  | madd (rd rn rm ra : BitVec 5)
  | msub (rd rn rm ra : BitVec 5)
  | addpl (rd rn : BitVec 5) (imm : BitVec 6)
  | addvl (rd rn : BitVec 5) (imm : BitVec 6)
  | rdvl (rd : BitVec 5) (imm : BitVec 6)
  | dsb
  | risuop (op : BitVec 4)

/-- A word of A64.  Where register 31 is the stack pointer, it is left out. -/
def decodeWordA64 (w : BitVec 32) : Option InsnA64 :=
  let op := w.extractLsb' 21 11
  let rd := w.extractLsb' 0 5
  let rn := w.extractLsb' 5 5
  let rm := w.extractLsb' 16 5
  let ra := w.extractLsb' 10 5
  match decodeA64 w with
  | some i => some (.mov i)
  | none =>
    if op = 0x658 then some (.sub rd rn rm false (w.extractLsb' 10 6))
    else if op = 0x65c then some (.sub rd rn rm true (w.extractLsb' 10 6))
    else if op = 0x4d8 then
      some (if w.extractLsb' 15 1 = 0 then .madd rd rn rm ra else .msub rd rn rm ra)
    else if op = 0x025 ∧ rm = 31 ∧ w.extractLsb' 11 5 = 0x0a then some (.rdvl rd (w.extractLsb' 5 6))
    else if op = 0x000 ∧ w.extractLsb' 4 17 = 0x005af then some (.risuop (w.extractLsb' 0 4))
    else if w = 0xd5033f9f then some .dsb
    else if rd = 31 then none
    else if op = 0x023 ∧ w.extractLsb' 11 5 = 0x0a ∧ rm ≠ 31 then
      some (.addpl rd rm (w.extractLsb' 5 6))
    else if op = 0x021 ∧ w.extractLsb' 11 5 = 0x0a ∧ rm ≠ 31 then
      some (.addvl rd rm (w.extractLsb' 5 6))
    else if w.extractLsb' 22 10 = 0x244 ∧ rn ≠ 31 then some (.addi rd rn (w.extractLsb' 10 12))
    else none

/-- Register 31 is zero. -/
def getA64 (regs : RegsA64) (r : BitVec 5) : BitVec 64 := if r = 31 then 0 else regs r

def setA64 (regs : RegsA64) (r : BitVec 5) (v : BitVec 64) : RegsA64 :=
  if r = 31 then regs else Function.update regs r v

/-- With vectors of `vl` bytes. -/
def InsnA64.exec (vl : ℕ) (block : BitVec 64) (regs : RegsA64) : InsnA64 → RegsA64
  | mov i => i.exec regs
  | addi rd rn imm => setA64 regs rd (getA64 regs rn + imm.setWidth 64)
  | sub rd rn rm right shift =>
    setA64 regs rd (getA64 regs rn -
      if right then (getA64 regs rm).sshiftRight shift.toNat else getA64 regs rm <<< shift.toNat)
  | madd rd rn rm ra => setA64 regs rd (getA64 regs ra + getA64 regs rn * getA64 regs rm)
  | msub rd rn rm ra => setA64 regs rd (getA64 regs ra - getA64 regs rn * getA64 regs rm)
  | addpl rd rn imm => setA64 regs rd (getA64 regs rn + BitVec.ofInt 64 (imm.toInt * (vl / 8 : ℕ)))
  | addvl rd rn imm => setA64 regs rd (getA64 regs rn + BitVec.ofInt 64 (imm.toInt * vl))
  | rdvl rd imm => setA64 regs rd (BitVec.ofInt 64 (imm.toInt * vl))
  | dsb => regs
  | risuop op => if op = opGetmemblock then setA64 regs 0 (getA64 regs 0 + block) else regs

def run64 (vl : ℕ) (block : BitVec 64) : List Code → RegsA64 → Option RegsA64
  | [], regs => some regs
  | .word w :: code, regs =>
    (decodeWordA64 w).bind fun i => run64 vl block code (i.exec vl block regs)
  | .half _ :: _, _ => none

/-! ### Code behind code -/

theorem isWide_of_decodeThumb {w u : BitVec 16} {i : Mov16} (h : decodeThumb w u = some i) :
    isWide w = true := by
  rw [decodeThumb] at h
  split at h
  · cases h
  · next hforms =>
    rw [not_or, not_or, not_or] at hforms
    rw [isWide, not_not.mp hforms.2.2.2]
    rfl

theorem run32_narrow {m : Mode} (hm : m = .thumb) {w : BitVec 16} (hw : isWide w = false)
    (block : BitVec 32) (code : List Code) (regs : Regs) :
    run32 m block (.half w :: code) regs =
      (decodeNarrow w).bind fun i => run32 m block code (i.exec block regs) := by
  subst hm
  cases code with
  | nil => simp [run32, hw]
  | cons c code => cases c <;> simp [run32, hw]

theorem run32_append {m : Mode} {block : BitVec 32} {code : List Code} {regs regs' : Regs}
    (h : run32 m block code regs = some regs') (rest : List Code) :
    run32 m block (code ++ rest) regs = run32 m block rest regs' := by
  fun_induction run32 m block code regs with
  | case1 regs =>
    cases h
    rfl
  | case2 w code regs hm ih =>
    obtain ⟨i, hi, h⟩ := Option.bind_eq_some_iff.mp h
    rw [List.cons_append, run32, if_pos hm, hi]
    exact ih i h
  | case3 w code regs hm => cases h
  | case4 w u code regs hm => cases h
  | case5 w u code regs hm hw ih =>
    obtain ⟨i, hi, h⟩ := Option.bind_eq_some_iff.mp h
    rw [List.cons_append, List.cons_append, run32, if_neg hm, if_pos hw, hi]
    exact ih i h
  | case6 w u code regs hm hw ih =>
    obtain ⟨i, hi, h⟩ := Option.bind_eq_some_iff.mp h
    rw [List.cons_append, run32_narrow (not_not.mp hm) (Bool.not_eq_true _ ▸ hw), hi]
    exact ih i h
  | case7 => cases h
  | case8 w code regs hne hm ih =>
    obtain ⟨i, hi, h⟩ := Option.bind_eq_some_iff.mp h
    obtain ⟨hm, hw⟩ := not_or.mp hm
    rw [List.cons_append, run32_narrow (not_not.mp hm) (Bool.not_eq_true _ ▸ hw), hi]
    exact ih i h

/-- Moves of immediates, among other code. -/
theorem run32_moves {m : Mode} {code : List Code} {regs regs' : Regs}
    (h : runMoves m code regs = some regs') (block : BitVec 32) : run32 m block code regs = some regs' := by
  fun_induction runMoves m code regs with
  | case1 regs => exact h
  | case2 w code regs hm ih =>
    obtain ⟨i, hi, h⟩ := Option.bind_eq_some_iff.mp h
    rw [run32, if_pos hm, decodeWord, hi]
    exact ih i h
  | case3 => cases h
  | case4 w u code regs hm ih =>
    obtain ⟨i, hi, h⟩ := Option.bind_eq_some_iff.mp h
    rw [run32, if_neg (not_not.mpr hm), if_pos (isWide_of_decodeThumb hi), decodeWide, hi]
    exact ih i h
  | case5 => cases h
  | case6 => cases h

theorem run64_append {vl : ℕ} {block : BitVec 64} {code : List Code} {regs regs' : RegsA64}
    (h : run64 vl block code regs = some regs') (rest : List Code) :
    run64 vl block (code ++ rest) regs = run64 vl block rest regs' := by
  induction code generalizing regs with
  | nil =>
    cases h
    rfl
  | cons c code ih =>
    cases c with
    | half w => cases h
    | word w =>
      rw [run64, Option.bind_eq_some_iff] at h
      obtain ⟨i, hi, h⟩ := h
      rw [List.cons_append, run64, hi]
      exact ih h

theorem run64_moves {code : List Code} {regs regs' : RegsA64} (h : runA64 code regs = some regs')
    (vl : ℕ) (block : BitVec 64) : run64 vl block code regs = some regs' := by
  fun_induction runA64 code regs with
  | case1 regs => exact h
  | case2 w code regs ih =>
    obtain ⟨i, hi, h⟩ := Option.bind_eq_some_iff.mp h
    rw [run64, decodeWordA64, hi]
    exact ih i h
  | case3 => cases h

end Risu.Gen.Arm
