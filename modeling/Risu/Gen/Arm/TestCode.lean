import Risu.Gen.Arm.Address
import Risu.Gen.Arm.Cleanup
import Risu.Gen.Arm.Emit
import Risu.Gen.Arm.Inline

/-!
# Test code in ARM and Thumb mode (`gen_one_insn`, `write_test_code`)

* `Writer`, `Call` — what the blocks of a pattern call;
* `genOneInsn`, `writeTestCode` — the generator;
* `Yields` — what holds of a result, if there is one;
* `Writer.inMode` — the writers follow `$is_thumb`;
* `consistent_writeTestCode` — the log of every run is consistent;
* `hundredLoads` — a run with a memory block that goes back to ARM mode in its last round.
-/

namespace Risu.Gen.Arm

open Lib

/-! ### What blocks call -/

/-- The writers of code that follows `$is_thumb`, with what they are called with. -/
inductive Writer where
  | movRi16 (rd imm isMovt : BitVec 64)
  | movRi (rd : BitVec 64) (imm : ℤ)
  | movRr (rd rm : BitVec 64)
  | subRrr (rd rn rm : BitVec 64)
  | subRrrs (rd rn rm : BitVec 64) (type : Shift) (imm : ℤ)
  | risuop (op : BitVec 64)
  | reg (a : Align) (draw : Fin (2048 - 512)) (base : BitVec 64) (trashed : List (BitVec 64))
  | regPlusImm (a : Align) (draw : Fin (2048 - 512)) (base : BitVec 64) (imm : ℤ)
      (trashed : List (BitVec 64))
  | regMinusImm (a : Align) (draw : Fin (2048 - 512)) (base : BitVec 64) (imm : ℤ)
      (trashed : List (BitVec 64))
  | regPlusReg (a : Align) (draw : Fin (2048 - 512)) (base idx : BitVec 64)
      (trashed : List (BitVec 64))
  | regPlusRegShifted (a : Align) (draw : Fin (2048 - 512)) (base idx : BitVec 64) (shift : ℤ)
      (trashed : List (BitVec 64))

/-- `none` where the generator dies. -/
def Writer.code (m : Mode) : Writer → Option (List Code)
  | movRi16 rd imm isMovt => writeMovRi16 m rd imm isMovt
  | movRi rd imm => writeMovRi m rd imm
  | movRr rd rm => some (writeMovRr m rd rm)
  | subRrr rd rn rm => some (writeSubRrr m rd rn rm)
  | subRrrs rd rn rm type imm => writeSubRrrs m rd rn rm type imm
  | risuop op => some (writeRisuop m op)
  | reg a draw base trashed => (Arm.reg m a draw base trashed).map Prod.fst
  | regPlusImm a draw base imm trashed => (Arm.regPlusImm m a draw base imm trashed).map Prod.fst
  | regMinusImm a draw base imm trashed => (Arm.regMinusImm m a draw base imm trashed).map Prod.fst
  | regPlusReg a draw base idx trashed => (Arm.regPlusReg m a draw base idx trashed).map Prod.fst
  | regPlusRegShifted a draw base idx shift trashed =>
    (Arm.regPlusRegShifted m a draw base idx shift trashed).map Prod.fst

/-- What is drawn for the registers. -/
structure RegDraws where
  fp : Fin 32 → ArmFpDraws
  words : Fin 14 → Word

namespace Out

/-- A block with its data, in words. -/
def emitBlock (o : Out) (B : Lib.Block) (data : List Word) : Out :=
  (((o.emitAll .insn (B.setup.map .word)).emit .insn (.word B.jump)).emitAll .data (data.map .word)).emitAll
    .insn (B.rest.map .word)

def writeMemblockSetup (data : Fin ((8192 + 64) / 4) → Word) (o : Out) : Option Out := do
  let o := o.writeSwitchToArm
  let B ← memblockSetup .arm data
  return o.emitBlock B (List.ofFn data)

def writeRandomArmRegdata (fpEnabled : Bool) (d : RegDraws) (o : Out) : Out :=
  let o := o.writeSwitchToArm
  o.emitBlock (armRegdata fpEnabled d.fp d.words) (regdataWords fpEnabled d.fp d.words)

def writeRisuop (op : BitVec 64) (o : Out) : Out := o.emitAll .insn (Arm.writeRisuop o.mode op)

/-- `write_random_register_data`, with `OP_COMPARE`. -/
def writeRandomRegisterData (fpEnabled : Bool) (d : RegDraws) (o : Out) : Out :=
  (o.writeRandomArmRegdata fpEnabled d).writeRisuop 0

def writeSetFpscrArm (fpscr : BitVec 64) (o : Out) : Out :=
  let o := o.writeSwitchToArm
  o.emitAll .insn
    [.word (insn32 (0xe3000000#64 ||| (fpscr &&& 0xfff#64) ||| ((fpscr &&& 0xf000#64) <<< 4))),
      .word (insn32 (0xe3400000#64 ||| ((fpscr &&& 0xf0000000#64) >>> 12) |||
        ((fpscr &&& 0x0fff0000#64) >>> 16))),
      .word 0xeee10a10#32]

def writeSwitchToTestMode (testThumb : Bool) (o : Out) : Out :=
  if testThumb then o.writeSwitchToThumb else o.writeSwitchToArm

end Out

/-- A call of a block. -/
inductive Call where
  | writer (w : Writer)
  | switchToThumb
  | switchToArm
  | switchToTestMode (testThumb : Bool)
  | setFpscr (fpscr : BitVec 64)
  | memblockSetup (data : Fin ((8192 + 64) / 4) → Word)
  | randomRegisterData (fpEnabled : Bool) (d : RegDraws)

def Call.emit (o : Out) : Call → Option Out
  | writer w => (w.code o.mode).map (o.emitAll .insn)
  | switchToThumb => some o.writeSwitchToThumb
  | switchToArm => some o.writeSwitchToArm
  | switchToTestMode testThumb => some (o.writeSwitchToTestMode testThumb)
  | setFpscr fpscr => some (o.writeSetFpscrArm fpscr)
  | memblockSetup data => o.writeMemblockSetup data
  | randomRegisterData fpEnabled d => some (o.writeRandomRegisterData fpEnabled d)

/-! ### The generator -/

/-- An instruction of the test, with the calls of the blocks of its pattern.  The block of constraints
may run many times. -/
structure InsnDraws where
  wide : Bool
  insn : BitVec 32
  constraints : List Call
  /-- The calls of the memory block, and the base register that it returns; none is -1. -/
  memory : Option (List Call × Option (BitVec 64))
  pre : List Call
  post : List Call

/-- The instruction under test. -/
def Out.emitInsn (o : Out) (d : InsnDraws) : Out :=
  if o.isThumb then
    let o := o.emit .insn (.half ((d.insn >>> 16).setWidth 16))
    if d.wide then o.emit .insn (.half ((d.insn &&& 0xffff#32).setWidth 16)) else o
  else o.emit .insn (.word d.insn)

def genOneInsn (o : Out) (d : InsnDraws) : Option Out := do
  let o ← d.constraints.foldlM Call.emit o
  let o ← (d.memory.elim [] Prod.fst).foldlM Call.emit o
  let o ← d.pre.foldlM Call.emit o
  let o ← d.post.foldlM Call.emit (o.emitInsn d)
  if let some (_, basereg) := d.memory then do
    let code ← cleanup o.mode basereg
    return o.emitAll .insn code
  else return o

/-- The parameters, and what is drawn. -/
structure Params where
  testThumb : Bool
  fpEnabled : Bool
  fpscr : BitVec 64
  /-- Some pattern has a memory block. -/
  memory : Bool
  memblock : Fin ((8192 + 64) / 4) → Word
  regs : ℕ → RegDraws
  insns : List InsnDraws

/-- The `i`-th round of `write_test_code`. -/
def testRound (p : Params) (o : Out) (d : InsnDraws × ℕ) : Option Out := do
  let o ← genOneInsn o d.1
  let o := o.writeRisuop 0
  if d.2 % 100 = 0 then
    return (o.writeRandomRegisterData p.fpEnabled (p.regs (d.2 / 100))).writeSwitchToTestMode p.testThumb
  else return o

/-- `write_test_code` in ARM or Thumb mode; `none` where the generator dies. -/
def writeTestCode (p : Params) : Option Out := do
  let o : Out := ⟨false, 0, []⟩
  let o := if p.fpEnabled then o.writeSetFpscrArm p.fpscr else o
  let o ← if p.memory then o.writeMemblockSetup p.memblock else some o
  let o := (o.writeRandomRegisterData p.fpEnabled (p.regs 0)).writeSwitchToTestMode p.testThumb
  let o ← (p.insns.zipIdx 1).foldlM (testRound p) o
  return o.writeRisuop 1

/-! ### Results that may be missing -/

/-- What holds of a result, if there is one. -/
def Yields {α : Type} (P : α → Prop) (x : Option α) : Prop := ∀ a, x = some a → P a

section

variable {α β : Type} {P : α → Prop} {Q : β → Prop}

theorem Yields.some {a : α} (h : P a) : Yields P (some a) := fun _ ha => Option.some.inj ha ▸ h

theorem Yields.none : Yields P (none : Option α) := nofun

theorem Yields.bind {x : Option α} {f : α → Option β} (hx : Yields P x) (hf : ∀ a, P a → Yields Q (f a)) :
    Yields Q (x >>= f) := by
  intro b hb
  obtain ⟨a, ha, hb⟩ := Option.bind_eq_some_iff.mp hb
  exact hf a (hx a ha) b hb

theorem Yields.foldlM {f : α → β → Option α} (hf : ∀ a b, P a → Yields P (f a b)) (l : List β) {a : α}
    (ha : P a) : Yields P (l.foldlM f a) := by
  induction l generalizing a with
  | nil => exact .some ha
  | cons b l ih => exact (hf a b ha).bind fun a' ha' => ih ha'

end

/-! ### The writers follow the mode -/

section

variable (t : Bool)

theorem InMode.append {t : Bool} {c d : List Code} (hc : InMode t c) (hd : InMode t d) : InMode t (c ++ d) :=
  List.forall_mem_append.mpr ⟨hc, hd⟩

theorem inMode_words (ws : List Word) : InMode false (ws.map .word) := by
  intro c hc
  obtain ⟨w, -, rfl⟩ := List.mem_map.mp hc
  rfl

theorem inMode_nil : InMode t [] := fun _ h => absurd h List.not_mem_nil

/-- The mode of a bit. -/
abbrev modeOf (t : Bool) : Mode := if t then .thumb else .arm

theorem inMode_writeRisuop (op : BitVec 64) : InMode t (writeRisuop (modeOf t) op) := by
  cases t <;> simp [InMode, modeOf, writeRisuop, Code.isWord]

theorem inMode_writeMovRr (rd rm : BitVec 64) : InMode t (writeMovRr (modeOf t) rd rm) := by
  cases t <;> simp [InMode, modeOf, writeMovRr, Code.isWord]

theorem inMode_subRrrsCode (rd rn rm : BitVec 64) (type : Shift) (imm : BitVec 64) :
    InMode t (subRrrsCode (modeOf t) rd rn rm type imm) := by
  cases t <;> simp [InMode, modeOf, subRrrsCode, Code.isWord]

theorem inMode_writeSubRrr (rd rn rm : BitVec 64) : InMode t (writeSubRrr (modeOf t) rd rn rm) := by
  cases t <;> simp [InMode, modeOf, writeSubRrr, Code.isWord]

theorem yields_writeSubRrrs (rd rn rm : BitVec 64) (type : Shift) (imm : ℤ) :
    Yields (InMode t) (writeSubRrrs (modeOf t) rd rn rm type imm) := by
  rw [writeSubRrrs]
  split_ifs
  all_goals first | exact .none | exact .some (inMode_subRrrsCode t _ _ _ _ _)

theorem yields_writeMovRi16 (rd imm isMovt : BitVec 64) :
    Yields (InMode t) (writeMovRi16 (modeOf t) rd imm isMovt) := by
  rw [writeMovRi16]
  cases t <;> simp [InMode, modeOf, Code.isWord, Yields]

theorem yields_writeMovRi (rd : BitVec 64) (imm : ℤ) :
    Yields (InMode t) (writeMovRi (modeOf t) rd imm) := by
  have hmode : modeOf t ≠ .aarch64 := by cases t <;> decide
  rw [writeMovRi, if_neg hmode]
  refine (yields_writeMovRi16 t _ _ _).bind fun low hlow => ?_
  dsimp only
  split_ifs
  · exact (yields_writeMovRi16 t _ _ _).bind fun high hhigh => .some (hlow.append hhigh)
  · exact .some (hlow.append (inMode_nil t))

variable (a : Align) (draw : Fin (2048 - 512)) (base : BitVec 64) (trashed : List (BitVec 64))

theorem yields_writeGetOffset : Yields (InMode t) (writeGetOffset (modeOf t) a draw) :=
  (yields_writeMovRi t _ _).bind fun _ hmov => .some (hmov.append (inMode_writeRisuop t 3))

theorem yields_reg : Yields (fun e : Emitted => InMode t e.1) (reg (modeOf t) a draw base trashed) := by
  refine (yields_writeGetOffset t a draw).bind fun get hget => ?_
  dsimp only
  split_ifs
  · exact (yields_writeMovRi t _ _).bind fun clear hclear =>
      .some (hget.append ((inMode_writeMovRr t _ _).append hclear))
  · exact .some (hget.append (inMode_nil t))

theorem yields_regPlusImm (imm : ℤ) :
    Yields (fun e : Emitted => InMode t e.1) (regPlusImm (modeOf t) a draw base imm trashed) := by
  by_cases himm : imm = 0
  · rw [regPlusImm, if_pos himm]
    exact yields_reg t a draw base trashed
  rw [regPlusImm, if_neg himm]
  refine (yields_writeGetOffset t a draw).bind fun get hget => ?_
  dsimp only
  split_ifs
  · refine (yields_writeMovRi t _ _).bind fun mov hmov => ?_
    exact (yields_writeMovRi t _ _).bind fun clear hclear =>
      .some (hget.append (hmov.append ((inMode_writeSubRrr t _ _ _).append hclear)))
  · exact (yields_writeMovRi t _ _).bind fun mov hmov =>
      .some (hget.append (hmov.append (inMode_writeSubRrr t _ _ _)))

theorem yields_regPlusRegShifted (idx : BitVec 64) (shift : ℤ) :
    Yields (fun e : Emitted => InMode t e.1)
      (regPlusRegShifted (modeOf t) a draw base idx shift trashed) := by
  by_cases hshift : shift < 0 ∨ 4 < shift ∨ modeOf t ≠ .aarch64 ∧ shift = 4
  · rw [regPlusRegShifted, if_pos hshift]
    exact .none
  rw [regPlusRegShifted, if_neg hshift]
  generalize (if base = 1 then (2 : BitVec 64) else 1) = saved
  refine (yields_writeGetOffset t a draw).bind fun get hget => ?_
  dsimp only
  split_ifs
  · exact (yields_writeSubRrrs t _ _ _ _ _).bind fun sub hsub =>
      .some ((inMode_writeMovRr t _ _).append (hget.append (hsub.append (inMode_writeMovRr t _ _))))
  · refine (yields_writeSubRrrs t _ _ _ _ _).bind fun sub hsub => ?_
    exact (yields_writeMovRi t _ _).bind fun clear hclear => .some (hget.append (hsub.append hclear))
  · exact (yields_writeSubRrrs t _ _ _ _ _).bind fun sub hsub =>
      .some (hget.append (hsub.append (inMode_nil t)))

theorem yields_cleanup (basereg : Option (BitVec 64)) :
    Yields (InMode t) (cleanup (modeOf t) basereg) := by
  have hbarrier : InMode t (dataBarrier (modeOf t)) := by
    cases t <;> exact inMode_nil _
  cases basereg with
  | none => exact .some (hbarrier.append ((inMode_nil t).append (inMode_writeRisuop t 4)))
  | some basereg =>
    refine (yields_writeMovRi t 0 0).bind fun clear hclear => ?_
    refine (yields_writeMovRi t 0 0).bind fun clear' hclear' => ?_
    have hoffset := hclear.append ((inMode_writeRisuop t 3).append
      ((inMode_writeSubRrr t basereg basereg 0).append hclear'))
    exact .some (hbarrier.append (hoffset.append (inMode_writeRisuop t 4)))

end

theorem Yields.fst {t : Bool} {x : Option Emitted} (h : Yields (fun e : Emitted => InMode t e.1) x) :
    Yields (InMode t) (x.map Prod.fst) := by
  intro code hcode
  obtain ⟨e, he, rfl⟩ := Option.map_eq_some_iff.mp hcode
  exact h e he

theorem Writer.inMode (t : Bool) (w : Writer) : Yields (InMode t) (w.code (modeOf t)) := by
  cases w with
  | movRi16 rd imm isMovt => exact yields_writeMovRi16 t rd imm isMovt
  | movRi rd imm => exact yields_writeMovRi t rd imm
  | movRr rd rm => exact .some (inMode_writeMovRr t rd rm)
  | subRrr rd rn rm => exact .some (inMode_writeSubRrr t rd rn rm)
  | subRrrs rd rn rm type imm => exact yields_writeSubRrrs t rd rn rm type imm
  | risuop op => exact .some (inMode_writeRisuop t op)
  | reg a draw base trashed => exact (yields_reg t a draw base trashed).fst
  | regPlusImm a draw base imm trashed => exact (yields_regPlusImm t a draw base trashed imm).fst
  | regMinusImm a draw base imm trashed => exact (yields_regPlusImm t a draw base trashed (-imm)).fst
  | regPlusReg a draw base idx trashed =>
    exact (yields_regPlusRegShifted t a draw base trashed idx 0).fst
  | regPlusRegShifted a draw base idx shift trashed =>
    exact (yields_regPlusRegShifted t a draw base trashed idx shift).fst

/-! ### Runs -/

namespace Tracked

variable {o : Out} (h : Tracked o)

include h

theorem emitBlock (harm : o.isThumb = false) (B : Lib.Block) (data : List Word) :
    Tracked (o.emitBlock B data) ∧ (o.emitBlock B data).isThumb = false := by
  obtain ⟨h₁, hmode₁, -⟩ := h.emitAll (harm ▸ inMode_words B.setup)
  rw [harm] at hmode₁
  obtain ⟨h₂, hset₂⟩ := h₁.insn (c := .word B.jump) (by rw [hmode₁]; rfl)
  obtain ⟨h₃, -, hmode₃⟩ := h₂.emitData hset₂ hmode₁ data
  obtain ⟨h₄, hmode₄, -⟩ := h₃.emitAll (hmode₃ ▸ inMode_words B.rest)
  exact ⟨h₄, hmode₄.trans hmode₃⟩

theorem writeRisuop (op : BitVec 64) :
    Tracked (o.writeRisuop op) ∧ Settled (o.writeRisuop op) := by
  obtain ⟨h', -, hset⟩ := h.emitAll (inMode_writeRisuop o.isThumb op)
  refine ⟨h', hset (.inl ?_)⟩
  cases o.isThumb <;> exact List.cons_ne_nil _ _

theorem writeMemblockSetup (data : Fin ((8192 + 64) / 4) → Word) :
    Yields Tracked (o.writeMemblockSetup data) := by
  obtain ⟨h', harm⟩ := h.switchToArm
  exact Yields.bind (fun _ _ => trivial) fun B (_ : True) => .some (h'.emitBlock harm B _).1

theorem writeRandomRegisterData (fpEnabled : Bool) (d : RegDraws) :
    Tracked (o.writeRandomRegisterData fpEnabled d) := by
  obtain ⟨h', harm⟩ := h.switchToArm
  exact ((h'.emitBlock harm _ _).1.writeRisuop 0).1

theorem writeSetFpscrArm (fpscr : BitVec 64) : Tracked (o.writeSetFpscrArm fpscr) := by
  obtain ⟨h', harm⟩ := h.switchToArm
  exact (h'.emitAll (harm ▸ inMode_words [_, _, _])).1

theorem writeSwitchToTestMode (testThumb : Bool) : Tracked (o.writeSwitchToTestMode testThumb) := by
  cases testThumb with
  | true => exact h.switchToThumb.1
  | false => exact h.switchToArm.1

theorem call (c : Call) : Yields Tracked (c.emit o) := by
  cases c with
  | writer w =>
    intro o' ho'
    obtain ⟨code, hcode, rfl⟩ := Option.map_eq_some_iff.mp ho'
    exact (h.emitAll (w.inMode o.isThumb code hcode)).1
  | switchToThumb => exact .some h.switchToThumb.1
  | switchToArm => exact .some h.switchToArm.1
  | switchToTestMode testThumb => exact .some (h.writeSwitchToTestMode testThumb)
  | setFpscr fpscr => exact .some (h.writeSetFpscrArm fpscr)
  | memblockSetup data => exact h.writeMemblockSetup data
  | randomRegisterData fpEnabled d => exact .some (h.writeRandomRegisterData fpEnabled d)

theorem calls (cs : List Call) : Yields Tracked (cs.foldlM Call.emit o) :=
  Yields.foldlM (fun _ c h => h.call c) cs h

/-- The instruction under test has the words of its mode. -/
theorem emitInsn (d : InsnDraws) : Tracked (o.emitInsn d) := by
  rw [Out.emitInsn]
  split_ifs with ht hwide
  · have h' := (h.insn (c := .half ((d.insn >>> 16).setWidth 16)) (by rw [ht]; rfl)).1
    exact (h'.insn (by show false = !o.isThumb; rw [ht]; rfl)).1
  · exact (h.insn (by rw [ht]; rfl)).1
  · have harm : o.isThumb = false := Bool.not_eq_true _ ▸ ht
    exact (h.insn (by rw [harm]; rfl)).1

/-- One instruction keeps the invariant. -/
theorem genOneInsn (d : InsnDraws) : Yields Tracked (genOneInsn o d) := by
  refine (h.calls d.constraints).bind fun o₁ h₁ => ?_
  refine (h₁.calls _).bind fun o₂ h₂ => ?_
  refine (h₂.calls d.pre).bind fun o₃ h₃ => ?_
  refine ((h₃.emitInsn d).calls d.post).bind fun o₄ h₄ => ?_
  cases d.memory with
  | none => exact .some h₄
  | some m =>
    refine (yields_cleanup o₄.isThumb m.2).bind fun code hcode => ?_
    exact .some (h₄.emitAll hcode).1

theorem testRound (p : Params) (d : InsnDraws × ℕ) : Yields Tracked (testRound p o d) := by
  refine (h.genOneInsn d.1).bind fun o' h' => ?_
  dsimp only
  split_ifs
  · exact .some (((h'.writeRisuop 0).1.writeRandomRegisterData _ _).writeSwitchToTestMode _)
  · exact .some (h'.writeRisuop 0).1

end Tracked

theorem tracked_start : Tracked ⟨false, 0, []⟩ where
  even := Nat.dvd_zero 2
  aligned := fun _ => Nat.dvd_zero 4
  placed := fun _ he => absurd he List.not_mem_nil
  toArm := trivial
  toThumb := trivial

/-- A whole run, with the risuop at its end. -/
theorem tracked_writeTestCode (p : Params) : Yields (fun o => Tracked o ∧ Settled o) (writeTestCode p) := by
  have hfp : Tracked (if p.fpEnabled then (⟨false, 0, []⟩ : Out).writeSetFpscrArm p.fpscr
      else ⟨false, 0, []⟩) := by
    split_ifs
    · exact tracked_start.writeSetFpscrArm _
    · exact tracked_start
  have hrounds {o : Out} (h : Tracked o) :
      Yields Tracked ((p.insns.zipIdx 1).foldlM (Arm.testRound p)
        ((o.writeRandomRegisterData p.fpEnabled (p.regs 0)).writeSwitchToTestMode p.testThumb)) :=
    Yields.foldlM (fun _ d h => h.testRound p d) _
      ((h.writeRandomRegisterData _ _).writeSwitchToTestMode _)
  rw [writeTestCode]
  dsimp only
  generalize (if p.fpEnabled then _ else _ : Out) = o₀ at hfp ⊢
  have hend {o : Out} (h : Tracked o) : Yields (fun o => Tracked o ∧ Settled o)
      (some (o.writeRisuop 1)) := .some (h.writeRisuop 1)
  split_ifs
  · refine (hfp.writeMemblockSetup p.memblock).bind fun o ho => ?_
    exact (hrounds ho).bind fun o' ho' => hend ho'
  · refine (Yields.some hfp).bind fun o ho => ?_
    exact (hrounds ho).bind fun o' ho' => hend ho'

/-- **The mode is followed in every run**: words of ARM mode are aligned and emitted while `$is_thumb`
is 0; halfwords are emitted while it is 1, but for `eor r0, r0` of `write_switch_to_thumb`; and each
switch branches to the next instruction, in the other mode. -/
theorem consistent_writeTestCode (p : Params) {o : Out} (ho : writeTestCode p = some o)
    {load : BitVec 32} (hload : 4 ∣ load.toNat) : Consistent (·.tag = .clearR0) load o.log := by
  obtain ⟨htracked, hsettled⟩ := tracked_writeTestCode p o ho
  exact htracked.consistent hsettled hload

/-! ### A run -/

namespace Out

variable {o : Out} {e : Entry}

theorem emitAll_isThumb (o : Out) (tag : Tag) (cs : List Code) :
    (o.emitAll tag cs).isThumb = o.isThumb := by
  induction cs generalizing o with
  | nil => rfl
  | cons c cs ih => exact ih (o.emit tag c)

theorem mem_emitAll (h : e ∈ o.log) (tag : Tag) (cs : List Code) : e ∈ (o.emitAll tag cs).log := by
  induction cs generalizing o with
  | nil => exact h
  | cons c cs ih => exact ih (List.mem_append_left _ h)

theorem mem_writeSwitchToThumb (h : e ∈ o.log) : e ∈ o.writeSwitchToThumb.log := by
  rw [writeSwitchToThumb]
  split_ifs
  · exact h
  · exact mem_emitAll (List.mem_append_left _ (List.mem_append_left _ h)) .clearR0 [.half 0x4040#16]

/-- In Thumb mode register data begins with `bx pc`. -/
theorem bxPc_mem_writeRandomRegisterData (h : o.isThumb = true) (fpEnabled : Bool) (d : RegDraws) :
    ∃ e ∈ (o.writeRandomRegisterData fpEnabled d).log, e.tag = .bxPc := by
  refine ⟨⟨o.thumbAlign4.bytecount, o.thumbAlign4.isThumb, .bxPc, .half 0x4778#16⟩, ?_, rfl⟩
  apply mem_emitAll
  apply mem_emitAll
  apply mem_emitAll
  apply List.mem_append_left
  apply mem_emitAll
  rw [writeSwitchToArm, if_pos h]
  exact List.mem_append_left _ (List.mem_append_right _ List.mem_cons_self)

end Out

def align4 : Align := ⟨4, by decide, by decide⟩

/-- `LDR r2, [r2]` with the address in `r2`. -/
def thumbLoad : InsnDraws where
  wide := false
  insn := 0x68120000#32
  constraints := []
  memory := some ([.writer (.reg align4 0 2 [])], some 2)
  pre := []
  post := []

theorem genOneInsn_thumbLoad {o : Out} (h : o.isThumb = true) :
    ∃ o', genOneInsn o thumbLoad = some o' ∧ o'.isThumb = true := by
  obtain ⟨get, hget⟩ : ∃ get, (Writer.reg align4 0 2 []).code .thumb = some get :=
    ⟨_, rfl⟩
  obtain ⟨clear, hclear⟩ : ∃ clear, cleanup .thumb (some 2) = some clear := ⟨_, rfl⟩
  have hmode : ∀ p : Out, p.isThumb = true → p.mode = .thumb := fun p hp => by rw [Out.mode, if_pos hp]
  have hload : ((o.emitAll .insn get).emitInsn thumbLoad).isThumb = true := by
    rw [Out.emitInsn, if_pos ((Out.emitAll_isThumb o .insn get).trans h)]
    exact (Out.emitAll_isThumb o .insn get).trans h
  refine ⟨((o.emitAll .insn get).emitInsn thumbLoad).emitAll .insn clear, ?_,
    (Out.emitAll_isThumb _ _ _).trans hload⟩
  have hcall : Call.emit o (.writer (.reg align4 0 2 [])) =
      some (o.emitAll .insn get) := by
    rw [Call.emit, hmode o h, hget]
    rfl
  have hblock : ([.writer (.reg align4 0 2 [])] : List Call).foldlM Call.emit o =
      some (o.emitAll .insn get) := by
    rw [List.foldlM_cons, hcall]
    rfl
  rw [genOneInsn]
  show (([.writer (.reg align4 0 2 [])] : List Call).foldlM Call.emit o).bind _ = _
  rw [hblock]
  show (cleanup ((o.emitAll .insn get).emitInsn thumbLoad).mode (some 2)).bind _ = _
  rw [hmode _ hload, hclear]
  rfl

/-- Rounds before the hundredth stay in Thumb mode. -/
theorem rounds_thumbLoad (p : Params) (n k : ℕ) (hk : k + n < 100) {o : Out} (h : o.isThumb = true) :
    ∃ o', ((List.replicate n thumbLoad).zipIdx (k + 1)).foldlM (testRound p) o = some o' ∧
      o'.isThumb = true := by
  induction n generalizing k o with
  | zero => exact ⟨o, rfl, h⟩
  | succ n ih =>
    obtain ⟨o₁, ho₁, h₁⟩ := genOneInsn_thumbLoad h
    obtain ⟨o', ho', h'⟩ := ih (k + 1) (by omega) (o := o₁.writeRisuop 0)
      ((Out.emitAll_isThumb _ _ _).trans h₁)
    refine ⟨o', ?_, h'⟩
    have hround : testRound p o (thumbLoad, k + 1) = some (o₁.writeRisuop 0) := by
      have hne : (k + 1) % 100 ≠ 0 := by omega
      simp only [testRound, ho₁, if_neg hne]
      rfl
    rw [List.replicate_succ, List.zipIdx_cons, List.foldlM_cons, hround]
    exact ho'

/-- The hundredth round goes back to ARM mode for new register data. -/
theorem hundredth_thumbLoad {p : Params} (hp : p.testThumb = true) {o : Out} (h : o.isThumb = true) :
    ∃ o', testRound p o (thumbLoad, 100) = some o' ∧ ∃ e ∈ o'.log, e.tag = .bxPc := by
  obtain ⟨o₁, ho₁, h₁⟩ := genOneInsn_thumbLoad h
  have hthumb : (o₁.writeRisuop 0).isThumb = true := (Out.emitAll_isThumb _ _ _).trans h₁
  obtain ⟨e, he, htag⟩ := Out.bxPc_mem_writeRandomRegisterData hthumb p.fpEnabled (p.regs 1)
  refine ⟨((o₁.writeRisuop 0).writeRandomRegisterData p.fpEnabled (p.regs 1)).writeSwitchToThumb, ?_, e,
    Out.mem_writeSwitchToThumb he, htag⟩
  simp only [testRound, ho₁]
  show some (Out.writeSwitchToTestMode p.testThumb _) = _
  rw [hp]
  rfl

/-- A hundred loads in Thumb mode, with a memory block. -/
def hundredLoads : Params where
  testThumb := true
  fpEnabled := false
  fpscr := 0
  memory := true
  memblock := fun _ => 0
  regs := fun _ => ⟨fun _ => ⟨false, .zero, .zero⟩, fun _ => 0⟩
  insns := List.replicate 99 thumbLoad ++ [thumbLoad]

/-- The set-up of the run leads to Thumb mode. -/
theorem writeTestCode_start : ∃ o, o.isThumb = true ∧ writeTestCode hundredLoads =
    ((hundredLoads.insns.zipIdx 1).foldlM (testRound hundredLoads) o).bind fun o =>
      some (o.writeRisuop 1) := by
  obtain ⟨B, hB⟩ : ∃ B, Arm.memblockSetup .arm hundredLoads.memblock = some B := ⟨_, rfl⟩
  have hsetup : (⟨false, 0, []⟩ : Out).writeMemblockSetup hundredLoads.memblock =
      some ((⟨false, 0, []⟩ : Out).emitBlock B (List.ofFn hundredLoads.memblock)) := by
    rw [Out.writeMemblockSetup, hB]
    rfl
  refine ⟨(((⟨false, 0, []⟩ : Out).emitBlock B (List.ofFn hundredLoads.memblock)).writeRandomRegisterData
    false (hundredLoads.regs 0)).writeSwitchToThumb, ?_, ?_⟩
  · rw [Out.writeSwitchToThumb]
    split_ifs with ht
    · exact ht
    · rfl
  · rw [writeTestCode]
    simp only [show hundredLoads.fpEnabled = false from rfl, show hundredLoads.memory = true from rfl,
      show hundredLoads.testThumb = true from rfl, if_true, Bool.false_eq_true, if_false, hsetup]
    rfl

theorem writeTestCode_hundredLoads :
    ∃ o, writeTestCode hundredLoads = some o ∧ ∃ e ∈ o.log, e.tag = .bxPc := by
  obtain ⟨o₀, hthumb, hrun⟩ := writeTestCode_start
  obtain ⟨o₁, ho₁, h₁⟩ := rounds_thumbLoad hundredLoads 99 0 (by decide) hthumb
  obtain ⟨o₂, ho₂, e, he, htag⟩ := hundredth_thumbLoad (p := hundredLoads) rfl h₁
  have hrounds : (hundredLoads.insns.zipIdx 1).foldlM (testRound hundredLoads) o₀ = some o₂ := by
    show ((List.replicate 99 thumbLoad ++ [thumbLoad]).zipIdx 1).foldlM _ _ = _
    rw [List.zipIdx_append, List.foldlM_append, ho₁, List.length_replicate]
    show (testRound hundredLoads o₁ (thumbLoad, 100)).bind _ = _
    rw [ho₂]
    rfl
  refine ⟨o₂.writeRisuop 1, ?_, e, Out.mem_emitAll he .insn _, htag⟩
  rw [hrun, hrounds]
  rfl

theorem consistent_writeTestCode_hundredLoads :
    ∃ o, writeTestCode hundredLoads = some o ∧ (∃ e ∈ o.log, e.tag = .bxPc) ∧
      Consistent (·.tag = .clearR0) 0x10000 o.log := by
  obtain ⟨o, ho, hbx⟩ := writeTestCode_hundredLoads
  exact ⟨o, ho, hbx, consistent_writeTestCode hundredLoads ho (by decide)⟩

/-- A run in Thumb mode without instructions. -/
def emptyThumb : Params where
  testThumb := true
  fpEnabled := false
  fpscr := 0
  memory := false
  memblock := fun _ => 0
  regs := fun _ => ⟨fun _ => ⟨false, .zero, .zero⟩, fun _ => 0⟩
  insns := []

/-- `eor r0, r0` is emitted while `$is_thumb` is 0. -/
theorem not_consistent_emptyThumb : ¬∀ (p : Params) (o : Out), writeTestCode p = some o →
    ∀ load : BitVec 32, 4 ∣ load.toNat → Consistent (fun _ => False) load o.log := by
  intro h
  have hlog := h emptyThumb _ rfl 0x10000 (by decide)
  rcases hlog.halves ⟨84, false, .clearR0, .half 0x4040#16⟩ (List.mem_of_getElem? (i := 21) rfl) rfl
    with hthumb | hexempt
  · exact Bool.false_ne_true hthumb
  · exact hexempt

end Risu.Gen.Arm
