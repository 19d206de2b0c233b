import Risu.Gen.Arm.Machine

/-!
# Instruction writers of `risugen_arm.pm`

* `writeRisuop`, `writeSubRrr`, `writeSubRrrs`, `writeMovRr` — in the three modes;
* `writeAddplRri`, `writeAddvlRri`, `writeRdvlRi`, `writeMaddRrrr`, `writeMsubRrrr` — in A64 only;
* `Isa` — a mode with what its writers do; `isaOf` — the three modes.
-/

namespace Risu.Gen.Arm

open Lib

/-! ### Code -/

/-- `$OP_COMPARE` and so on. -/
def writeRisuop (m : Mode) (op : BitVec 64) : List Code :=
  match m with
  | .thumb => [.half (insn16 (0xdee0#64 ||| op))]
  | .aarch64 => [.word (insn32 (0x00005af0#64 ||| op))]
  | .arm => [.word (insn32 (0xe7fe5af0#64 ||| op))]

def dataBarrier (m : Mode) : List Code := if m = .aarch64 then [.word 0xd5033f9f#32] else []

def writeSubRrr (m : Mode) (rd rn rm : BitVec 64) : List Code :=
  match m with
  | .aarch64 => [.word (insn32 (0xcb000000#64 ||| (rm <<< 16) ||| (rn <<< 5) ||| rd))]
  | .thumb => [.half (insn16 (0xeba0#64 ||| rn)), .half (insn16 (0x0000#64 ||| (rd <<< 8) ||| rm))]
  | .arm => [.word (insn32 (0xe0400000#64 ||| (rn <<< 16) ||| (rd <<< 12) ||| rm))]

inductive Shift where
  | lsl
  | lsr
  | asr
  | ror
  deriving DecidableEq

/-- `$SHIFT_LSL` and so on. -/
def Shift.code : Shift → BitVec 64
  | lsl => 0
  | lsr => 1
  | asr => 2
  | ror => 3

/-- The words of a subtraction with a shift. -/
def subRrrsCode (m : Mode) (rd rn rm : BitVec 64) (type : Shift) (imm : BitVec 64) : List Code :=
  match m with
  | .aarch64 =>
    [.word (insn32 (0xcb000000#64 ||| (type.code <<< 22) ||| (rm <<< 16) ||| (imm <<< 10) |||
      (rn <<< 5) ||| rd))]
  | .thumb =>
    let imm3 := imm >>> 2
    let imm2 := imm &&& 3
    [.half (insn16 (0xeba0#64 ||| rn)),
      .half (insn16 ((imm3 <<< 12) ||| (rd <<< 8) ||| (imm2 <<< 6) ||| (type.code <<< 4) ||| rm))]
  | .arm =>
    [.word (insn32 (0xe0400000#64 ||| (rn <<< 16) ||| (rd <<< 12) ||| (imm <<< 7) |||
      (type.code <<< 5) ||| rm))]

/-- The bits of a register. -/
def Mode.bits (m : Mode) : ℤ := if m = .aarch64 then 64 else 32

/-- `none` where the generator dies. -/
def writeSubRrrs (m : Mode) (rd rn rm : BitVec 64) (type : Shift) (imm : ℤ) : Option (List Code) :=
  let type := if imm = 0 then .lsl else type
  let imm := if imm = m.bits ∧ (type = .lsr ∨ type = .asr) then 0 else imm
  if imm < 0 ∨ m.bits - 1 < imm then none else some (subRrrsCode m rd rn rm type (uv imm))

def writeMovRr (m : Mode) (rd rm : BitVec 64) : List Code :=
  match m with
  | .aarch64 => [.word (insn32 (0x91000000#64 ||| (rm <<< 5) ||| rd))]
  | .thumb => [.half (insn16 0xea4f#64), .half (insn16 ((rd <<< 8) ||| rm))]
  | .arm => [.word (insn32 (0xe1a00000#64 ||| (rd <<< 12) ||| rm))]

/-! The writers for A64; `none` where the generator dies. -/

def writeAddplRri (m : Mode) (rd rn : BitVec 64) (imm : ℤ) : Option (List Code) :=
  if m = .aarch64 then
    some [.word (insn32 (0x04605000#64 ||| (rn <<< 16) ||| ((uv imm &&& 0x3f#64) <<< 5) ||| rd))]
  else none

def writeAddvlRri (m : Mode) (rd rn : BitVec 64) (imm : ℤ) : Option (List Code) :=
  if m = .aarch64 then
    some [.word (insn32 (0x04205000#64 ||| (rn <<< 16) ||| ((uv imm &&& 0x3f#64) <<< 5) ||| rd))]
  else none

def writeRdvlRi (m : Mode) (rd : BitVec 64) (imm : ℤ) : Option (List Code) :=
  if m = .aarch64 then
    some [.word (insn32 (0x04bf5000#64 ||| ((uv imm &&& 0x3f#64) <<< 5) ||| rd))]
  else none

def writeMaddRrrr (m : Mode) (rd rn rm ra : BitVec 64) : Option (List Code) :=
  if m = .aarch64 then
    some [.word (insn32 (0x9b000000#64 ||| (rm <<< 16) ||| (ra <<< 10) ||| (rn <<< 5) ||| rd))]
  else none

def writeMsubRrrr (m : Mode) (rd rn rm ra : BitVec 64) : Option (List Code) :=
  if m = .aarch64 then
    some [.word (insn32 (0x9b008000#64 ||| (rm <<< 16) ||| (ra <<< 10) ||| (rn <<< 5) ||| rd))]
  else none

def writeMulRrr (m : Mode) (rd rn rm : BitVec 64) : Option (List Code) := writeMaddRrrr m rd rn rm 31

/-! ### What the words are -/

theorem decodeWord_sub {rd rn rm : BitVec 4} (hrd : rd ≠ 15) (hrn : rn ≠ 15) (hrm : rm ≠ 15)
    (shift : BitVec 5) :
    decodeWord (insn32 (0xe0400000#64 ||| (rn.setWidth 64 <<< 16) ||| (rd.setWidth 64 <<< 12) |||
      (shift.setWidth 64 <<< 7) ||| rm.setWidth 64)) = some (.sub rd rn rm shift) := by
  set w := insn32 (0xe0400000#64 ||| (rn.setWidth 64 <<< 16) ||| (rd.setWidth 64 <<< 12) |||
    (shift.setWidth 64 <<< 7) ||| rm.setWidth 64) with hw
  have hop : w.extractLsb' 20 12 = 0xe04 := by simp [hw, insn32, BitVec.extractLsb'_or]
  have hn : w.extractLsb' 16 4 = rn := by simp [hw, insn32, BitVec.extractLsb'_or]
  have hd : w.extractLsb' 12 4 = rd := by simp [hw, insn32, BitVec.extractLsb'_or]
  have hm : w.extractLsb' 0 4 = rm := by simp [hw, insn32, BitVec.extractLsb'_or]
  have hs : w.extractLsb' 7 5 = shift := by simp [hw, insn32, BitVec.extractLsb'_or]
  have hz : w.extractLsb' 4 3 = 0 := by simp [hw, insn32, BitVec.extractLsb'_or]
  have hmov : decodeArm w = none := by
    rw [decodeArm, hd, hop, if_neg hrd]
    rfl
  simpa [decodeWord, hmov, hop, hn, hd, hm, hs, hz] using ⟨⟨hrd, hrm⟩, hrn⟩

theorem decodeWord_mov {rd rm : BitVec 4} (hrd : rd ≠ 15) (hrm : rm ≠ 15) :
    decodeWord (insn32 (0xe1a00000#64 ||| (rd.setWidth 64 <<< 12) ||| rm.setWidth 64)) =
      some (.mov rd rm) := by
  set w := insn32 (0xe1a00000#64 ||| (rd.setWidth 64 <<< 12) ||| rm.setWidth 64) with hw
  have hop : w.extractLsb' 20 12 = 0xe1a := by simp [hw, insn32, BitVec.extractLsb'_or]
  have hn : w.extractLsb' 16 4 = 0 := by simp [hw, insn32, BitVec.extractLsb'_or]
  have hd : w.extractLsb' 12 4 = rd := by simp [hw, insn32, BitVec.extractLsb'_or]
  have hm : w.extractLsb' 0 4 = rm := by simp [hw, insn32, BitVec.extractLsb'_or]
  have hz : w.extractLsb' 4 8 = 0 := by simp [hw, insn32, BitVec.extractLsb'_or]
  have hmov : decodeArm w = none := by
    rw [decodeArm, hd, hop, if_neg hrd]
    rfl
  simpa [decodeWord, hmov, hop, hn, hd, hm, hz] using ⟨hrd, hrm⟩

theorem decodeWide_sub {rd rn rm : BitVec 4} (hrd : rd ≠ 13 ∧ rd ≠ 15) (hrn : rn ≠ 13 ∧ rn ≠ 15)
    (hrm : rm ≠ 13 ∧ rm ≠ 15) (imm3 : BitVec 3) (imm2 : BitVec 2) :
    decodeWide (insn16 (0xeba0#64 ||| rn.setWidth 64))
        (insn16 ((imm3.setWidth 64 <<< 12) ||| (rd.setWidth 64 <<< 8) ||| (imm2.setWidth 64 <<< 6) |||
          rm.setWidth 64)) =
      some (.sub rd rn rm (imm3 ++ imm2)) := by
  set w := insn16 (0xeba0#64 ||| rn.setWidth 64) with hw
  set u := insn16 ((imm3.setWidth 64 <<< 12) ||| (rd.setWidth 64 <<< 8) ||| (imm2.setWidth 64 <<< 6) |||
    rm.setWidth 64) with hu
  have hop : w.extractLsb' 4 12 = 0xeba := by simp [hw, insn16, BitVec.extractLsb'_or]
  have hn : w.extractLsb' 0 4 = rn := by simp [hw, insn16, BitVec.extractLsb'_or]
  have hd : u.extractLsb' 8 4 = rd := by simp [hu, insn16, BitVec.extractLsb'_or]
  have hm : u.extractLsb' 0 4 = rm := by simp [hu, insn16, BitVec.extractLsb'_or]
  have hz : u.extractLsb' 15 1 = 0 := by simp [hu, insn16, BitVec.extractLsb'_or]
  have ht : u.extractLsb' 4 2 = 0 := by simp [hu, insn16, BitVec.extractLsb'_or]
  have h3 : u.extractLsb' 12 3 = imm3 := by simp [hu, insn16, BitVec.extractLsb'_or]
  have h2 : u.extractLsb' 6 2 = imm2 := by simp [hu, insn16, BitVec.extractLsb'_or]
  have hwide : w.extractLsb' 11 5 ≠ 0x1e := by simp [hw, insn16, BitVec.extractLsb'_or]
  have hmov : decodeThumb w u = none := by
    rw [decodeThumb, if_pos (.inr (.inr (.inr hwide)))]
  simpa [decodeWide, hmov, hop, hn, hd, hm, hz, ht, h3, h2, and_assoc] using
    ⟨hrd.1, hrd.2, hrm.1, hrm.2, hrn⟩

theorem decodeWide_mov {rd rm : BitVec 4} (hrd : rd ≠ 13 ∧ rd ≠ 15) (hrm : rm ≠ 13 ∧ rm ≠ 15) :
    decodeWide (insn16 0xea4f#64) (insn16 ((rd.setWidth 64 <<< 8) ||| rm.setWidth 64)) =
      some (.mov rd rm) := by
  set u := insn16 ((rd.setWidth 64 <<< 8) ||| rm.setWidth 64) with hu
  have hd : u.extractLsb' 8 4 = rd := by simp [hu, insn16, BitVec.extractLsb'_or]
  have hm : u.extractLsb' 0 4 = rm := by simp [hu, insn16, BitVec.extractLsb'_or]
  have hz : u.extractLsb' 12 4 = 0 := by simp [hu, insn16, BitVec.extractLsb'_or]
  have hz' : u.extractLsb' 4 4 = 0 := by simp [hu, insn16, BitVec.extractLsb'_or]
  have hmov : decodeThumb (insn16 0xea4f#64) u = none := by
    rw [decodeThumb, if_pos (.inr (.inr (.inr (by decide))))]
  have hop : (insn16 0xea4f#64).extractLsb' 4 12 = 0xea4 := by decide
  have hn : (insn16 0xea4f#64).extractLsb' 0 4 = 15 := by decide
  simpa [decodeWide, hmov, hop, hn, hd, hm, hz, hz', and_assoc] using ⟨hrd.1, hrd.2, hrm⟩

/-- The fields of a word of A64. -/
theorem decodeA64_none {w : BitVec 32} (h : w.extractLsb' 23 6 ≠ 0x25) : decodeA64 w = none := by
  rw [decodeA64, if_pos (.inl h)]

theorem decodeWordA64_sub (rd rn rm : BitVec 5) (right : Bool) (shift : BitVec 6) :
    decodeWordA64 (insn32 (0xcb000000#64 ||| ((if right then 2#64 else 0#64) <<< 22) |||
      (rm.setWidth 64 <<< 16) ||| (shift.setWidth 64 <<< 10) ||| (rn.setWidth 64 <<< 5) |||
      rd.setWidth 64)) = some (.sub rd rn rm right shift) := by
  set w := insn32 (0xcb000000#64 ||| ((if right then 2#64 else 0#64) <<< 22) |||
    (rm.setWidth 64 <<< 16) ||| (shift.setWidth 64 <<< 10) ||| (rn.setWidth 64 <<< 5) |||
    rd.setWidth 64) with hw
  have hmov : w.extractLsb' 23 6 ≠ 0x25 := by
    cases right <;> simp [hw, insn32, BitVec.extractLsb'_or]
  have hop : w.extractLsb' 21 11 = if right then 0x65c else 0x658 := by
    cases right <;> simp [hw, insn32, BitVec.extractLsb'_or]
  have hd : w.extractLsb' 0 5 = rd := by cases right <;> simp [hw, insn32, BitVec.extractLsb'_or]
  have hn : w.extractLsb' 5 5 = rn := by cases right <;> simp [hw, insn32, BitVec.extractLsb'_or]
  have hm : w.extractLsb' 16 5 = rm := by cases right <;> simp [hw, insn32, BitVec.extractLsb'_or]
  have hs : w.extractLsb' 10 6 = shift := by
    cases right <;> simp [hw, insn32, BitVec.extractLsb'_or]
  rw [decodeWordA64, decodeA64_none hmov, hop, hd, hn, hm, hs]
  cases right <;> rfl

theorem decodeWordA64_mul (rd rn rm ra : BitVec 5) (sub : Bool) :
    decodeWordA64 (insn32 ((if sub then 0x9b008000#64 else 0x9b000000#64) |||
      (rm.setWidth 64 <<< 16) ||| (ra.setWidth 64 <<< 10) ||| (rn.setWidth 64 <<< 5) |||
      rd.setWidth 64)) = some (if sub then .msub rd rn rm ra else .madd rd rn rm ra) := by
  set w := insn32 ((if sub then 0x9b008000#64 else 0x9b000000#64) |||
    (rm.setWidth 64 <<< 16) ||| (ra.setWidth 64 <<< 10) ||| (rn.setWidth 64 <<< 5) |||
    rd.setWidth 64) with hw
  have hmov : w.extractLsb' 23 6 ≠ 0x25 := by
    cases sub <;> simp [hw, insn32, BitVec.extractLsb'_or]
  have hop : w.extractLsb' 21 11 = 0x4d8 := by
    cases sub <;> simp [hw, insn32, BitVec.extractLsb'_or]
  have hd : w.extractLsb' 0 5 = rd := by cases sub <;> simp [hw, insn32, BitVec.extractLsb'_or]
  have hn : w.extractLsb' 5 5 = rn := by cases sub <;> simp [hw, insn32, BitVec.extractLsb'_or]
  have hm : w.extractLsb' 16 5 = rm := by cases sub <;> simp [hw, insn32, BitVec.extractLsb'_or]
  have ha : w.extractLsb' 10 5 = ra := by cases sub <;> simp [hw, insn32, BitVec.extractLsb'_or]
  have ho : w.extractLsb' 15 1 = if sub then 1 else 0 := by
    cases sub <;> simp [hw, insn32, BitVec.extractLsb'_or]
  rw [decodeWordA64, decodeA64_none hmov, hop, hd, hn, hm, ha, ho]
  cases sub <;> rfl

theorem decodeWordA64_addi {rd rn : BitVec 5} (hrd : rd ≠ 31#5) (hrn : rn ≠ 31#5) :
    decodeWordA64 (insn32 (0x91000000#64 ||| (rn.setWidth 64 <<< 5) ||| rd.setWidth 64)) =
      some (.addi rd rn 0) := by
  set w := insn32 (0x91000000#64 ||| (rn.setWidth 64 <<< 5) ||| rd.setWidth 64) with hw
  have hmov : w.extractLsb' 23 6 ≠ 0x25 := by simp [hw, insn32, BitVec.extractLsb'_or]
  have hop : w.extractLsb' 21 11 = 0x488 := by simp [hw, insn32, BitVec.extractLsb'_or]
  have hop' : w.extractLsb' 22 10 = 0x244 := by simp [hw, insn32, BitVec.extractLsb'_or]
  have hd : w.extractLsb' 0 5 = rd := by simp [hw, insn32, BitVec.extractLsb'_or]
  have hn : w.extractLsb' 5 5 = rn := by simp [hw, insn32, BitVec.extractLsb'_or]
  have hi : w.extractLsb' 10 12 = 0 := by simp [hw, insn32, BitVec.extractLsb'_or]
  have hdsb : w ≠ 0xd5033f9f#32 := by
    intro h
    rw [h] at hop
    exact absurd hop (by decide)
  rw [decodeWordA64, decodeA64_none hmov, hop, hop', hd, hn, hi]
  simp [hdsb, hrd, hrn]

/-- `ADDPL` and `ADDVL`. -/
theorem decodeWordA64_addvl {rd rn : BitVec 5} (hrd : rd ≠ 31#5) (hrn : rn ≠ 31#5) (imm : BitVec 6)
    (pl : Bool) :
    decodeWordA64 (insn32 ((if pl then 0x04605000#64 else 0x04205000#64) ||| (rn.setWidth 64 <<< 16) |||
      (imm.setWidth 64 <<< 5) ||| rd.setWidth 64)) =
      some (if pl then .addpl rd rn imm else .addvl rd rn imm) := by
  set w := insn32 ((if pl then 0x04605000#64 else 0x04205000#64) ||| (rn.setWidth 64 <<< 16) |||
    (imm.setWidth 64 <<< 5) ||| rd.setWidth 64) with hw
  have hmov : w.extractLsb' 23 6 ≠ 0x25 := by
    cases pl <;> simp [hw, insn32, BitVec.extractLsb'_or]
  have hop : w.extractLsb' 21 11 = if pl then 0x023 else 0x021 := by
    cases pl <;> simp [hw, insn32, BitVec.extractLsb'_or]
  have hd : w.extractLsb' 0 5 = rd := by cases pl <;> simp [hw, insn32, BitVec.extractLsb'_or]
  have hn : w.extractLsb' 16 5 = rn := by cases pl <;> simp [hw, insn32, BitVec.extractLsb'_or]
  have hi : w.extractLsb' 5 6 = imm := by cases pl <;> simp [hw, insn32, BitVec.extractLsb'_or]
  have ho : w.extractLsb' 11 5 = 0x0a := by cases pl <;> simp [hw, insn32, BitVec.extractLsb'_or]
  have hdsb : w ≠ 0xd5033f9f#32 := by
    intro h
    rw [h] at ho
    exact absurd ho (by decide)
  rw [decodeWordA64, decodeA64_none hmov, hop, hd, hn, hi, ho]
  cases pl
  · simpa [hdsb] using ⟨hrd, hrn⟩
  · simpa [hdsb] using ⟨hrd, hrn⟩

theorem decodeWordA64_rdvl (rd : BitVec 5) (imm : BitVec 6) :
    decodeWordA64 (insn32 (0x04bf5000#64 ||| (imm.setWidth 64 <<< 5) ||| rd.setWidth 64)) =
      some (.rdvl rd imm) := by
  set w := insn32 (0x04bf5000#64 ||| (imm.setWidth 64 <<< 5) ||| rd.setWidth 64) with hw
  have hmov : w.extractLsb' 23 6 ≠ 0x25 := by simp [hw, insn32, BitVec.extractLsb'_or]
  have hop : w.extractLsb' 21 11 = 0x025 := by simp [hw, insn32, BitVec.extractLsb'_or]
  have hd : w.extractLsb' 0 5 = rd := by simp [hw, insn32, BitVec.extractLsb'_or]
  have hm : w.extractLsb' 16 5 = 31 := by simp [hw, insn32, BitVec.extractLsb'_or]
  have hi : w.extractLsb' 5 6 = imm := by simp [hw, insn32, BitVec.extractLsb'_or]
  have ho : w.extractLsb' 11 5 = 0x0a := by simp [hw, insn32, BitVec.extractLsb'_or]
  rw [decodeWordA64, decodeA64_none hmov, hop, hd, hm, hi, ho]
  rfl

/-! ### What the writers do -/

/-- The registers that a base can be: neither `sp` nor `pc`. -/
def General (r : BitVec 4) : Prop := r ≠ 13 ∧ r ≠ 15

theorem General.canMove {r : BitVec 4} (h : General r) (m : Mode) : m.canMove r := ⟨h.2, fun _ => h.1⟩

section

variable {m : Mode} {rd rn rm : BitVec 4} (block : BitVec 32) (regs : Regs)

theorem run32_writeRisuop (hm : m ≠ .aarch64) :
    run32 m block (writeRisuop m 3) regs = some (Function.update regs 0 (regs 0 + block)) := by
  cases m with
  | arm => rfl
  | thumb => rfl
  | aarch64 => exact absurd rfl hm

/-- `OP_COMPAREMEM` -/
theorem run32_comparemem (hm : m ≠ .aarch64) : run32 m block (writeRisuop m 4) regs = some regs := by
  cases m with
  | arm => rfl
  | thumb => rfl
  | aarch64 => exact absurd rfl hm

theorem run32_writeMovRr (hm : m ≠ .aarch64) (hrd : General rd) (hrm : General rm) :
    run32 m block (writeMovRr m (rd.setWidth 64) (rm.setWidth 64)) regs =
      some (Function.update regs rd (regs rm)) := by
  cases m with
  | arm =>
    rw [writeMovRr, run32, if_pos rfl, decodeWord_mov hrd.2 hrm.2]
    rfl
  | thumb =>
    have hwide : isWide (insn16 0xea4f#64) = true := by decide
    rw [writeMovRr, run32, if_neg (not_not.mpr rfl), if_pos hwide, decodeWide_mov hrd hrm]
    rfl
  | aarch64 => exact absurd rfl hm

/-- The two parts of a shift in T32. -/
theorem shift_parts (shift : BitVec 5) :
    (shift.setWidth 64 >>> 2 : BitVec 64) = (shift.extractLsb' 2 3).setWidth 64 ∧
      shift.setWidth 64 &&& 3 = (shift.extractLsb' 0 2).setWidth 64 ∧
      shift.extractLsb' 2 3 ++ shift.extractLsb' 0 2 = shift := by
  revert shift
  decide

theorem isWide_sub (rn : BitVec 4) : isWide (insn16 (0xeba0#64 ||| rn.setWidth 64)) = true := by
  revert rn
  decide

theorem uv_shift {k shift : ℕ} (hk : k < 64) (hs : shift < 2 ^ k) :
    uv (shift : ℤ) = (BitVec.ofNat k shift).setWidth 64 := by
  have hlt : shift < 2 ^ 64 := hs.trans (Nat.pow_lt_pow_right (by decide) hk)
  rw [uv_natCast hlt]
  apply BitVec.eq_of_toNat_eq
  rw [BitVec.toNat_setWidth, BitVec.toNat_ofNat, BitVec.toNat_ofNat, Nat.mod_eq_of_lt hs]

/-- The code of a shift to the left adds no bits. -/
theorem or_lsl (x : BitVec 64) (k : ℕ) : x ||| Shift.lsl.code <<< k = x := by
  show x ||| 0#64 <<< k = x
  rw [BitVec.zero_shiftLeft, BitVec.or_zero]

theorem writeSubRrrs_of_lt {m : Mode} {shift : ℕ} (hs : (shift : ℤ) < m.bits) (rd rn rm : BitVec 64)
    (type : Shift) :
    writeSubRrrs m rd rn rm type shift =
      some (subRrrsCode m rd rn rm (if shift = 0 then .lsl else type) (uv shift)) := by
  have hbits (p : Prop) [Decidable p] :
      (if (shift : ℤ) = m.bits ∧ p then (0 : ℤ) else shift) = shift :=
    if_neg fun h => absurd h.1 (by omega)
  simp only [writeSubRrrs, hbits, Nat.cast_eq_zero]
  rw [if_neg (by omega)]

/-- Without a shift. -/
theorem subRrrsCode_zero (m : Mode) (rd rn rm : BitVec 64) :
    subRrrsCode m rd rn rm .lsl 0 = writeSubRrr m rd rn rm := by
  cases m <;> simp [subRrrsCode, writeSubRrr, Shift.code]

theorem run32_subRrrsCode (hm : m ≠ .aarch64) (hrd : General rd) (hrn : General rn) (hrm : General rm)
    (shift : BitVec 5) :
    run32 m block (subRrrsCode m (rd.setWidth 64) (rn.setWidth 64) (rm.setWidth 64) .lsl
        (shift.setWidth 64)) regs =
      some (Function.update regs rd (regs rn - regs rm <<< shift.toNat)) := by
  cases m with
  | arm =>
    rw [subRrrsCode, run32, if_pos rfl, or_lsl, decodeWord_sub hrd.2 hrn.2 hrm.2]
    rfl
  | thumb =>
    obtain ⟨himm3, himm2, hparts⟩ := shift_parts shift
    rw [subRrrsCode, run32, if_neg (not_not.mpr rfl), if_pos (isWide_sub rn), or_lsl, himm3, himm2,
      decodeWide_sub hrd hrn hrm, hparts]
    rfl
  | aarch64 => exact absurd rfl hm

theorem run32_writeSubRrr (hm : m ≠ .aarch64) (hrd : General rd) (hrn : General rn) (hrm : General rm) :
    run32 m block (writeSubRrr m (rd.setWidth 64) (rn.setWidth 64) (rm.setWidth 64)) regs =
      some (Function.update regs rd (regs rn - regs rm)) := by
  have h := run32_subRrrsCode block regs hm hrd hrn hrm 0#5
  rw [BitVec.toNat_ofNat, Nat.zero_mod, BitVec.shiftLeft_zero] at h
  rw [← subRrrsCode_zero]
  exact h

end

section

variable {rd rn rm ra : BitVec 5} (vl : ℕ) (block : BitVec 64) (regs : RegsA64)

theorem run64_single {w : BitVec 32} {i : InsnA64} (h : decodeWordA64 w = some i) :
    run64 vl block [.word w] regs = some (i.exec vl block regs) := by
  rw [run64, h]
  rfl

theorem setA64_of_ne (h : rd ≠ 31) (v : BitVec 64) : setA64 regs rd v = Function.update regs rd v :=
  if_neg h

theorem getA64_of_ne (h : rn ≠ 31) : getA64 regs rn = regs rn := if_neg h

theorem run64_writeMovRr (hrd : rd ≠ 31) (hrm : rm ≠ 31) :
    run64 vl block (writeMovRr .aarch64 (rd.setWidth 64) (rm.setWidth 64)) regs =
      some (Function.update regs rd (regs rm)) := by
  rw [writeMovRr, run64_single vl block regs (decodeWordA64_addi hrd hrm), InsnA64.exec,
    setA64_of_ne regs hrd, getA64_of_ne regs hrm]
  simp

theorem run64_subRrrsCode (hrd : rd ≠ 31) (hrn : rn ≠ 31) (rm : BitVec 5) (right : Bool)
    (shift : BitVec 6) :
    run64 vl block (subRrrsCode .aarch64 (rd.setWidth 64) (rn.setWidth 64) (rm.setWidth 64)
        (if right then .asr else .lsl) (shift.setWidth 64)) regs =
      some (Function.update regs rd (regs rn -
        if right then (getA64 regs rm).sshiftRight shift.toNat
        else getA64 regs rm <<< shift.toNat)) := by
  have hcode : (if right then Shift.asr else Shift.lsl).code = if right then 2#64 else 0#64 := by
    cases right <;> rfl
  rw [subRrrsCode, hcode, run64_single vl block regs (decodeWordA64_sub rd rn rm right shift),
    InsnA64.exec, setA64_of_ne regs hrd, getA64_of_ne regs hrn]

theorem run64_writeSubRrr (hrd : rd ≠ 31) (hrn : rn ≠ 31) (rm : BitVec 5) :
    run64 vl block (writeSubRrr .aarch64 (rd.setWidth 64) (rn.setWidth 64) (rm.setWidth 64)) regs =
      some (Function.update regs rd (regs rn - getA64 regs rm)) := by
  rw [← subRrrsCode_zero]
  have h := run64_subRrrsCode vl block regs hrd hrn rm false 0
  simpa using h

end

/-! ### Modes -/

/-- A mode: its registers, and what its writers do. -/
structure Isa where
  mode : Mode
  /-- The bits of a register number and of a register. -/
  k : ℕ
  w : ℕ
  run : BitVec w → List Code → (BitVec k → BitVec w) → Option (BitVec k → BitVec w)
  get : (BitVec k → BitVec w) → BitVec k → BitVec w
  /-- The registers that can be a base, and an index. -/
  IsBase : BitVec k → Prop
  IsIndex : BitVec k → Prop
  two_le_k : 2 ≤ k
  k_le : k ≤ 64
  isBase_scratch : ∀ n < 4, IsBase (BitVec.ofNat k n)
  isIndex_of_isBase : ∀ {r}, IsBase r → IsIndex r
  get_of_isBase : ∀ {r} (regs), IsBase r → get regs r = regs r
  get_congr : ∀ {r} {regs regs' : BitVec k → BitVec w}, (IsBase r → regs r = regs' r) → IsIndex r →
    get regs r = get regs' r
  run_append : ∀ {block code regs regs'}, run block code regs = some regs' → ∀ rest,
    run block (code ++ rest) regs = run block rest regs'
  run_nil : ∀ block regs, run block [] regs = some regs
  run_writeMovRi : ∀ {rd}, IsBase rd → ∀ {imm : ℤ}, -2 ^ 31 ≤ imm → imm < 2 ^ 32 → ∃ code,
    writeMovRi mode (rd.setWidth 64) imm = some code ∧
      ∀ block regs, run block code regs = some (Function.update regs rd (BitVec.ofInt w imm))
  run_writeMovRr : ∀ {rd rm}, IsBase rd → IsBase rm → ∀ block regs,
    run block (writeMovRr mode (rd.setWidth 64) (rm.setWidth 64)) regs =
      some (Function.update regs rd (regs rm))
  run_writeSubRrr : ∀ {rd rn rm}, IsBase rd → IsBase rn → IsIndex rm → ∀ block regs,
    run block (writeSubRrr mode (rd.setWidth 64) (rn.setWidth 64) (rm.setWidth 64)) regs =
      some (Function.update regs rd (regs rn - get regs rm))
  run_subRrrsCode : ∀ {rd rn rm}, IsBase rd → IsBase rn → IsIndex rm → ∀ (shift : ℕ), shift < 2 ^ 5 → ∀ block regs,
    run block (subRrrsCode mode (rd.setWidth 64) (rn.setWidth 64) (rm.setWidth 64) .lsl (uv shift))
      regs = some (Function.update regs rd (regs rn - get regs rm <<< shift))
  run_getmemblock : ∀ block regs,
    run block (writeRisuop mode 3) regs =
      some (Function.update regs (BitVec.ofNat k 0) (regs (BitVec.ofNat k 0) + block))
  run_comparemem : ∀ block regs, run block (writeRisuop mode 4) regs = some regs
  run_dataBarrier : ∀ block regs, run block (dataBarrier mode) regs = some regs

/-- A32 or T32. -/
def isa32 (m : Mode) (hm : m ≠ .aarch64) : Isa where
  mode := m
  k := 4
  w := 32
  run := run32 m
  get := id
  IsBase := General
  IsIndex := General
  two_le_k := by decide
  k_le := by decide
  isBase_scratch := by unfold General; decide
  isIndex_of_isBase := id
  get_of_isBase := fun _ _ => rfl
  get_congr := fun h hr => h hr
  run_append := run32_append
  run_nil := fun _ _ => by rw [run32]
  run_writeMovRi := by
    intro rd hrd imm himm himm'
    obtain ⟨code, hcode, -⟩ := runMoves_writeMovRi hm (hrd.canMove m) himm himm' fun _ => 0
    refine ⟨code, hcode, fun block regs => ?_⟩
    obtain ⟨code', hcode', hrun⟩ := runMoves_writeMovRi hm (hrd.canMove m) himm himm' regs
    rw [hcode, Option.some.injEq] at hcode'
    rw [hcode']
    exact run32_moves hrun block
  run_writeMovRr := fun hrd hrm block regs => run32_writeMovRr block regs hm hrd hrm
  run_writeSubRrr := fun hrd hrn hrm block regs => run32_writeSubRrr block regs hm hrd hrn hrm
  run_subRrrsCode := by
    intro rd rn rm hrd hrn hrm shift hs block regs
    have h := run32_subRrrsCode block regs hm hrd hrn hrm (BitVec.ofNat 5 shift)
    rw [← uv_shift (by decide) hs, BitVec.toNat_ofNat, Nat.mod_eq_of_lt hs] at h
    exact h
  run_getmemblock := fun block regs => run32_writeRisuop block regs hm
  run_comparemem := fun block regs => run32_comparemem block regs hm
  run_dataBarrier := fun _ _ => by rw [dataBarrier, if_neg hm, run32]

/-- A64, with vectors of `vl` bytes. -/
def isa64 (vl : ℕ) : Isa where
  mode := .aarch64
  k := 5
  w := 64
  run := run64 vl
  get := getA64
  IsBase := (· ≠ 31)
  IsIndex := fun _ => True
  two_le_k := by decide
  k_le := by decide
  isBase_scratch := by decide
  isIndex_of_isBase := fun _ => trivial
  get_of_isBase := fun regs h => getA64_of_ne regs h
  get_congr := by
    intro r regs regs' h _
    rw [getA64, getA64]
    split_ifs with hr
    · rfl
    · exact h hr
  run_append := run64_append
  run_nil := fun _ _ => rfl
  run_writeMovRi := by
    intro rd hrd imm himm himm'
    obtain ⟨code, hcode, -⟩ := runA64_writeMovRi hrd himm himm' fun _ => 0
    refine ⟨code, hcode, fun block regs => ?_⟩
    obtain ⟨code', hcode', hrun⟩ := runA64_writeMovRi hrd himm himm' regs
    rw [hcode, Option.some.injEq] at hcode'
    rw [hcode']
    exact run64_moves hrun vl block
  run_writeMovRr := fun hrd hrm block regs => run64_writeMovRr vl block regs hrd hrm
  run_writeSubRrr := fun hrd hrn _ block regs => run64_writeSubRrr vl block regs hrd hrn _
  run_subRrrsCode := by
    intro rd rn rm hrd hrn _ shift hs block regs
    have hs' : shift < 2 ^ 6 := hs.trans (by decide)
    have h := run64_subRrrsCode vl block regs hrd hrn rm false (BitVec.ofNat 6 shift)
    rw [← uv_shift (by decide) hs', BitVec.toNat_ofNat, Nat.mod_eq_of_lt hs'] at h
    exact h
  run_getmemblock := fun _ _ => rfl
  run_comparemem := fun _ _ => rfl
  run_dataBarrier := fun _ _ => rfl

/-- The three modes. -/
def isaOf (vl : ℕ) : Mode → Isa
  | .arm => isa32 .arm (by decide)
  | .thumb => isa32 .thumb (by decide)
  | .aarch64 => isa64 vl

end Risu.Gen.Arm
