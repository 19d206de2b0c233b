import Risu.Gen.Ppc.Loads

/-!
# The test program around the instructions under test (`risugen_ppc64.pm`)

* `writeStore32`, `writeRandomPpc64Fpdata`, `writeRandomRegdata` and so on — the words that give the
  registers random values;
* `writeMemblockSetup` — the loop that clears the memory below and above the stack pointer;
* `writeTestCode` — the whole program;
* `SetupInsn`, `decodeSetup` — the instructions of the setup, some of which not every processor has;
* `Core`, `Units`, `perform` — what they do.
-/

namespace Risu.Gen.Ppc

open Lib

/-! ### Words -/

/-- The number in `r20`, and `stw r20, imm(r1)`. -/
def writeStore32 (im imm : ℤ) : List Word :=
  writeMovRi 20#5 im ++
    [insn32 ((0x24#64 <<< 26) ||| (num 20#5 <<< 21) ||| (num 1#5 <<< 16) ||| (uv imm &&& 0xffff#64))]

def writeStore64 (bigEndian : Bool) (imh iml imm : ℤ) : List Word :=
  if bigEndian then writeStore32 imh (imm + 0) ++ writeStore32 iml (imm + 4)
  else writeStore32 iml (imm + 0) ++ writeStore32 imh (imm + 4)

def writeStore128 (bigEndian : Bool) (imhh imh iml imll imm : ℤ) : List Word :=
  if bigEndian then
    writeStore64 bigEndian imhh imh (imm + 0) ++ writeStore64 bigEndian iml imll (imm + 8)
  else writeStore64 bigEndian iml imll (imm + 0) ++ writeStore64 bigEndian imhh imh (imm + 8)

/-- What `irand` returns in `write_random_register_data`. -/
structure SetupDraws where
  fp : ℕ → ℤ × ℤ
  vr : ℕ → (ℤ × ℤ) × (ℤ × ℤ)
  ctr : ℤ
  mq : ℤ
  gpr : ℕ → ℤ

/-- `lfd f$i, 0x10(r1)` -/
def lfdWord (i : Reg) : Word :=
  insn32 ((0x32#64 <<< 26) ||| (num i <<< 21) ||| (num 1#5 <<< 16) ||| 0x10#64)

/-- `lvx vr$i, r1, r0`, which is an `lvxl`. -/
def lvxWord (i : Reg) : Word :=
  insn32 ((0x1f#64 <<< 26) ||| (num i <<< 21) ||| (num 1#5 <<< 16) ||| 0x2ce#64)

/-- `vxor v$i, v$i, v$i` -/
def vxorWord (i : Reg) : Word :=
  insn32 ((0x4#64 <<< 26) ||| (num i <<< 21) ||| (num i <<< 16) ||| (num i <<< 11) ||| 0x4c4#64)

/-- The turns of a loop over the 32 registers. -/
def forRegs (body : ℕ → List Word) : List Word := (List.range 32).flatMap body

def writeRandomPpc64Fpdata (bigEndian : Bool) (d : SetupDraws) : List Word :=
  forRegs fun i => writeStore64 bigEndian (d.fp i).1 (d.fp i).2 0x10 ++ [lfdWord (BitVec.ofNat 5 i)]

def writeRandomPpc64Vrdata (bigEndian : Bool) (d : SetupDraws) : List Word :=
  forRegs fun i =>
    writeStore128 bigEndian (d.vr i).1.1 (d.vr i).1.2 (d.vr i).2.1 (d.vr i).2.2 0x10 ++
      writeMovRi 0#5 0x10 ++ [lvxWord (BitVec.ofNat 5 i)]

/-- `mtcrf 0xff, r23` -/
def mtcrf23 : Word := insn32 ((31#64 <<< 26) ||| (num 23#5 <<< 21) ||| (255#64 <<< 12) ||| (144#64 <<< 1))

def writeRandomRegdata (d : SetupDraws) : List Word :=
  writeMovRi 23#5 0 ++ [mtcrf23, mtspr 1#64 23#5] ++ writeMovRi 23#5 d.ctr ++ [mtspr 9#64 23#5] ++
    writeMovRi 23#5 d.mq ++ [mtspr 0#64 23#5] ++
    forRegs fun i =>
      if usable [BitVec.ofNat 5 i] then writeMovRi (BitVec.ofNat 5 i) (d.gpr i) else []

def clearVrRegisters : List Word :=
  writeMovRi 23#5 (-1) ++ [mtspr 256#64 23#5] ++ forRegs fun i => [vxorWord (BitVec.ofNat 5 i)]

/-- `bl +4` -/
def blWord : Word := insn32 ((18#64 <<< 26) ||| 4#64 ||| 1#64)

def writeRandomRegisterData (bigEndian fpEnabled : Bool) (d : SetupDraws) : List Word :=
  [blWord] ++ clearVrRegisters ++ writeRandomPpc64Vrdata bigEndian d ++
    (if fpEnabled then writeRandomPpc64Fpdata bigEndian d else []) ++ writeRandomRegdata d

/-- The loop of `write_memblock_setup`: `stwu r3,-4(r2)` and `bdnz -4`. -/
def clearLoop : List Word := [0x9462fffc#32, 0x4200fffc#32]

def writeMemblockSetup : List Word :=
  writeMovRi 2#5 20000 ++ [0x7c4903a6#32] ++ writeMovRi 3#5 0 ++ [0x38410084#32] ++ clearLoop

def writeRisuop (op : BitVec 64) : Word := insn32 (0x00005af0#64 ||| op)

/-- `OP_COMPARE`, `OP_TESTEND`, `OP_SETUPBEGIN` and `OP_SETUPEND` of `risugen_common.pm`. -/
def opCompare : BitVec 64 := 0
def opTestend : BitVec 64 := 1
def opSetupbegin : BitVec 64 := 5
def opSetupend : BitVec 64 := 6

/-- The code in front of the first comparison. -/
def writeSetup (bigEndian fpEnabled memory : Bool) (d : SetupDraws) : List Word :=
  (if memory then writeMemblockSetup else []) ++ writeRandomRegisterData bigEndian fpEnabled d

/-- `write_test_code`, with what `gen_one_insn` writes for the instructions `1..numinsns`, and the
draws with which the registers are rewritten behind every hundredth. -/
def writeTestCode (bigEndian fpEnabled memory : Bool) (d : SetupDraws) (numinsns : ℕ)
    (genOneInsn : ℕ → List Word) (again : ℕ → SetupDraws) : List Word :=
  [writeRisuop opSetupbegin] ++ writeSetup bigEndian fpEnabled memory d ++
    [writeRisuop opSetupend, writeRisuop opCompare] ++
    (List.range' 1 numinsns).flatMap (fun i =>
      genOneInsn i ++ [writeRisuop opCompare] ++
        if i % 100 = 0 then
          [writeRisuop opSetupbegin] ++ writeRandomRegisterData bigEndian fpEnabled (again i) ++
            [writeRisuop opSetupend, writeRisuop opCompare]
        else []) ++
    [writeRisuop opTestend]

/-! ### Instructions -/

/-- The instructions of the setup. -/
inductive SetupInsn where
  | base (i : Insn)
  | stwu (rs ra : Reg) (d : BitVec 16)
  | bdnz (bd : BitVec 14)
  | mtmq (rs : Reg)
  | mtvrsave (rs : Reg)
  | vxor (vd va vb : Reg)
  | lvxl (vd ra rb : Reg)

/-- The instructions of opcode 31 that not every processor has. -/
def decodeOptional (xo : BitVec 10) (rt ra rb : Reg) : Option SetupInsn :=
  if xo = 467 ∧ ra = 0 ∧ rb = 0 then some (.mtmq rt)
  else if xo = 467 ∧ ra = 0 ∧ rb = 8 then some (.mtvrsave rt)
  else if xo = 359 then some (.lvxl rt ra rb)
  else none

def decodeSetup (w : Word) : Option SetupInsn :=
  match decode w with
  | some i => some (.base i)
  | none =>
    if w.extractLsb' 26 6 = 37 then
      some (.stwu (w.extractLsb' 21 5) (w.extractLsb' 16 5) (w.extractLsb' 0 16))
    else if w.extractLsb' 26 6 = 16 ∧ w.extractLsb' 16 10 = 0x200 ∧ w.extractLsb' 0 2 = 0 then
      some (.bdnz (w.extractLsb' 2 14))
    else if w.extractLsb' 26 6 = 4 ∧ w.extractLsb' 0 11 = 1220 then
      some (.vxor (w.extractLsb' 21 5) (w.extractLsb' 16 5) (w.extractLsb' 11 5))
    else if w.extractLsb' 26 6 = 31 ∧ w.extractLsb' 0 1 = 0 then
      decodeOptional (w.extractLsb' 1 10) (w.extractLsb' 21 5) (w.extractLsb' 16 5)
        (w.extractLsb' 11 5)
    else none

theorem decodeSetup_xForm {rt ra rb : Reg} {xo : BitVec 10} (h : decodeX xo rt ra rb = none) :
    decodeSetup (insn32 (xForm rt ra rb xo)) = decodeOptional xo rt ra rb := by
  have hop : (insn32 (xForm rt ra rb xo)).extractLsb' 26 6 = 31 := by
    simp [insn32, xForm, num, BitVec.extractLsb'_or]
  have hrt : (insn32 (xForm rt ra rb xo)).extractLsb' 21 5 = rt := by
    simp [insn32, xForm, num, BitVec.extractLsb'_or]
  have hra : (insn32 (xForm rt ra rb xo)).extractLsb' 16 5 = ra := by
    simp [insn32, xForm, num, BitVec.extractLsb'_or]
  have hrb : (insn32 (xForm rt ra rb xo)).extractLsb' 11 5 = rb := by
    simp [insn32, xForm, num, BitVec.extractLsb'_or]
  have hxo : (insn32 (xForm rt ra rb xo)).extractLsb' 1 10 = xo := by
    simp [insn32, xForm, num, BitVec.extractLsb'_or]
  have hrc : (insn32 (xForm rt ra rb xo)).extractLsb' 0 1 = 0 := by
    simp [insn32, xForm, num, BitVec.extractLsb'_or]
  rw [decodeSetup, decode_xForm, h, hop, hrt, hra, hrb, hxo, hrc]
  rfl

theorem decodeSetup_lvxWord (i : Reg) : decodeSetup (lvxWord i) = some (.lvxl i 1#5 0#5) := by
  have hword : lvxWord i = insn32 (xForm i 1#5 0#5 359#10) := by
    rw [lvxWord, xForm, show num 0#5 <<< 11 = 0#64 from rfl, BitVec.or_zero]
    rfl
  rw [hword, decodeSetup_xForm rfl]
  rfl

theorem decodeSetup_vxorWord (i : Reg) : decodeSetup (vxorWord i) = some (.vxor i i i) := by
  have hop : (vxorWord i).extractLsb' 26 6 = 4 := by
    simp [vxorWord, insn32, num, BitVec.extractLsb'_or]
  have hvd : (vxorWord i).extractLsb' 21 5 = i := by
    simp [vxorWord, insn32, num, BitVec.extractLsb'_or]
  have hva : (vxorWord i).extractLsb' 16 5 = i := by
    simp [vxorWord, insn32, num, BitVec.extractLsb'_or]
  have hvb : (vxorWord i).extractLsb' 11 5 = i := by
    simp [vxorWord, insn32, num, BitVec.extractLsb'_or]
  have hxo : (vxorWord i).extractLsb' 0 11 = 1220 := by
    simp [vxorWord, insn32, num, BitVec.extractLsb'_or]
  rw [decodeSetup, decode, decodeD, hop, hvd, hva, hvb, hxo]
  rfl

theorem decode_lfdWord (i : Reg) : decode (lfdWord i) = some (.lfd i 1#5 0x10#16) := by
  rw [lfdWord, show 0x32#64 = (50#6).setWidth 64 from rfl,
    show 0x10#64 = (0x10#16).setWidth 64 from rfl]
  exact decode_dForm (by decide) (by decide) i 1#5 _

/-! ### Execution -/

variable {n : ℕ} {ρ : Type}

/-- A processor's registers: those of `Cpu`, `MQ`, the FPSCR, and whatever else it has. -/
@[ext]
structure Core (n : ℕ) (ρ : Type) where
  cpu : Cpu n
  mq : BitVec n
  fpscr : BitVec n
  rest : ρ

/-- The vector registers and `VRSAVE`, among what else a processor has. -/
structure VectorUnit (n : ℕ) (ρ : Type) where
  mtvrsave : BitVec n → ρ → ρ
  vxor : Reg → Reg → Reg → ρ → ρ
  lvxl : Reg → List Byte → ρ → ρ

/-- What not every processor has. -/
structure Units (n : ℕ) (ρ : Type) where
  hasMq : Bool
  vector : Option (VectorUnit n ρ)

namespace Core

/-- On to the next instruction. -/
def next (s : Core n ρ) : Core n ρ := { s with cpu := s.cpu.next }

def withCpu (s : Core n ρ) (c : Cpu n) : Core n ρ := { s with cpu := c }

/-- The word at the pc. -/
def fetch (o : Order) (s : Core n ρ) : Word :=
  BitVec.ofNat 32 (valueOf o (load s.cpu.mem s.cpu.pc 4))

end Core

/-- One instruction of the setup; `none` if the processor does not have it. -/
def perform (o : Order) (u : Units n ρ) (i : SetupInsn) (s : Core n ρ) : Option (Core n ρ) :=
  match i with
  | .base i => some (s.withCpu (exec o i s.cpu))
  | .stwu rs ra d =>
    let ea := s.cpu.gpr ra + d.signExtend n
    some (s.withCpu ((s.cpu.setMem (store s.cpu.mem ea
      (bytesOf o 4 ((s.cpu.gpr rs).setWidth 32).toNat))).setGpr ra ea).next)
  | .bdnz bd =>
    let ctr := s.cpu.ctr - 1
    some (s.withCpu { s.cpu with
      ctr := ctr
      pc := if ctr ≠ 0 then s.cpu.pc + (bd ++ 0#2).signExtend n else s.cpu.pc + 4 })
  | .mtmq rs => if u.hasMq then some { s with mq := s.cpu.gpr rs }.next else none
  | .mtvrsave rs => u.vector.map fun v => { s with rest := v.mtvrsave (s.cpu.gpr rs) s.rest }.next
  | .vxor vd va vb => u.vector.map fun v => { s with rest := v.vxor vd va vb s.rest }.next
  | .lvxl vd ra rb =>
    let ea := (s.cpu.base ra + s.cpu.gpr rb) &&& ~~~15
    u.vector.map fun v => { s with rest := v.lvxl vd (load s.cpu.mem ea 16) s.rest }.next

/-- A processor: what it does with a word, and its other registers that a signal shows.  It reads the
words of the setup as the architecture says, and the words that ask for an op are illegal. -/
structure Processor (o : Order) (n : ℕ) where
  Rest : Type
  units : Units n Rest
  msr : Rest → BitVec n
  dar : Rest → BitVec n
  dsisr : Rest → BitVec n
  step : Word → Core n Rest → Option (Core n Rest)
  step_setup : ∀ w i s, decodeSetup w = some i → step w s = perform o units i s
  step_risuop : ∀ (op : BitVec 4) s, step (writeRisuop (op.setWidth 64)) s = none

end Risu.Gen.Ppc
