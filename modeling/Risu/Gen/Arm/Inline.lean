import Risu.Gen.Random
import Risu.Gen.Arm.Writers
import Risu.Lib.Image

/-!
# Inline data on Arm (`risugen_arm.pm`)

The memory block and the initial values of the registers are data between the instructions, and are
found relative to the program counter.  The code is the one behind `write_switch_to_arm`.

* `memblockSetup`, `armRegdata`, `fpdata`, `svedata` — the code that is written;
* `Access`, `Aligned` — what a load reads, and the alignment of its base register.
-/

namespace Risu.Gen.Arm

open Lib

/-! ### Code -/

abbrev Word := BitVec 32

/-- `ctz` halves until nothing but the highest bit is left; `>>=` cuts its operand off at 64 bits. -/
def ctz (x : ℕ) : ℕ := Nat.log2 (uv x).toNat

def writePcAdr (m : Mode) (rd imm : BitVec 64) : Word :=
  if m = .aarch64 then
    insn32 (0x10000000#64 ||| ((imm &&& 3) <<< 29) ||| ((imm >>> 2) <<< 5) ||| rd)
  else insn32 (0xe28f0000#64 ||| (rd <<< 12) ||| (imm - 8))

/-- `none` where the generator dies. -/
def writeAlignReg (m : Mode) (rd : BitVec 64) (align : ℕ) : Option Word :=
  if align < 2 then none
  else if m = .aarch64 then
    let cnt := BitVec.ofNat 64 (ctz align)
    some (insn32 (0x92000000#64 ||| (1 <<< 22) ||| ((64 - cnt) <<< 16) ||| ((63 - cnt) <<< 10) |||
      (rd <<< 5) ||| rd))
  else
    some (insn32 (0xe3c00000#64 ||| (rd <<< 16) ||| (rd <<< 12) ||| (BitVec.ofNat 64 align - 1)))

def writeJumpFwd (m : Mode) (len : BitVec 64) : Word :=
  if m = .aarch64 then insn32 (0x14000000#64 ||| (len / 4 + 1))
  else insn32 (0xea000000#64 ||| (len / 4 - 1))

/-- A risuop in a mode of words. -/
def risuopWord (m : Mode) (op : BitVec 64) : Word :=
  if m = .aarch64 then insn32 (0x00005af0#64 ||| op) else insn32 (0xe7fe5af0#64 ||| op)

/-- `write_memblock_setup`; the data is what `irand` returns. -/
def memblockSetup (m : Mode) (data : Fin ((8192 + 64) / 4) → Word) : Option Lib.Block := do
  let align ← writeAlignReg m 0 64
  return {
    setup := [writePcAdr m 0 (4 * 4 + (64 - 1)), align, risuopWord m 2]
    jump := writeJumpFwd m (8192 + 64)
    data := wordBytes (List.ofFn data)
    rest := [] }

/-- The outcome of `rand() < 0.5`, and the draws of the one or two calls behind it. -/
structure ArmFpDraws where
  double : Bool
  first : FpDraws
  second : FpDraws

def writeRandomArmFpreg (d : ArmFpDraws) : List Word :=
  if d.double then writeRandomFpregVar .double d.first
  else writeRandomFpregVar .single d.first ++ writeRandomFpregVar .single d.second

/-- The words behind the jump of `write_random_arm_regdata`. -/
def regdataWords (fpEnabled : Bool) (fp : Fin 32 → ArmFpDraws) (words : Fin 14 → Word) : List Word :=
  (if fpEnabled then (List.ofFn fp).flatMap writeRandomArmFpreg else []) ++ List.ofFn words

/-- `write_random_arm_regdata`; `$vfp` is 2 or 0. -/
def armRegdata (fpEnabled : Bool) (fp : Fin 32 → ArmFpDraws) (words : Fin 14 → Word) : Lib.Block :=
  let vfp := if fpEnabled then 2 else 0
  let datalen := 14 + 32 * vfp
  { setup :=
      (if fpEnabled then [0xe28f000c#32, 0xecb00b20#32, 0xecf00b20#32] else [0xe28f0004#32]) ++
        [0xe8905fff#32]
    jump := insn32 (0xea000000#64 + BitVec.ofNat 64 (datalen - 1))
    data := wordBytes (regdataWords fpEnabled fp words)
    rest := [0xe32cf000#32] }

/-- `write_random_aarch64_fpdata`, without `ld1`. -/
def fpdata (pad : Fin 4 → Word) (values : Fin 32 → FpDraws) : Option Lib.Block := do
  let align ← writeAlignReg .aarch64 0 16
  return {
    setup := [writePcAdr .aarch64 0 (3 * 4 + (16 - 1)), align]
    jump := writeJumpFwd .aarch64 (32 * 16 + 16)
    data := wordBytes (List.ofFn pad ++ (List.ofFn values).flatMap (writeRandomFpregVar .quad))
    rest := (List.range 16).map fun i =>
      let rt := BitVec.ofNat 64 (2 * i)
      insn32 (0xacc10000#64 ||| ((rt + 1) <<< 10) ||| rt) }

/-- `none` where the generator dies. -/
def writeAddRri (m : Mode) (rd rn : BitVec 64) (i : ℕ) : Option Word :=
  let word (sh i : BitVec 64) := insn32 (0x91000000#64 ||| rd ||| (rn <<< 5) ||| (i <<< 10) ||| (sh <<< 22))
  if m ≠ .aarch64 then none
  else if i < 0x1000 then some (word 0 (BitVec.ofNat 64 i))
  else if i % 0x1000 ≠ 0 ∨ 0x1000000 ≤ i then none
  else some (word 1 (BitVec.ofNat 64 i >>> 12))

/-- The bits of `ldr` for vectors and for predicates. -/
def sveLoad (op : BitVec 64) (rt : ℕ) : Word :=
  let rt := BitVec.ofNat 64 rt
  insn32 (op + rt + ((rt &&& 7) <<< 10) + ((rt &&& 0x18) <<< 13))

/-- `write_random_aarch64_svedata`; `$align` is set and not used. -/
def svedata (values : Fin (32 * 16) → FpDraws) (preds : Fin (16 * 16) → BitVec 16) : Option Lib.Block := do
  let vq := 16
  let veclen := 32 * vq * 16
  let predlen := 16 * vq * 2
  let add ← writeAddRri .aarch64 0 0 veclen
  return {
    setup := [writePcAdr .aarch64 0 (2 * 4)]
    jump := writeJumpFwd .aarch64 (BitVec.ofNat 64 (veclen + predlen))
    data := wordBytes ((List.ofFn values).flatMap (writeRandomFpregVar .quad)) ++
      (List.ofFn preds).flatMap fun h => leBytes 2 h.toNat
    rest := (List.range 32).map (sveLoad 0x85804000#64) ++
      (add :: (List.range 16).map (sveLoad 0x85800000#64)) }

/-! ### Loads -/

/-- A load: its base register, and what it reads. -/
structure Access (n : ℕ) where
  base : BitVec n
  addr : BitVec n
  len : ℕ

variable {n : ℕ}

/-- A load from the data, with a base register of the alignment that is required. -/
def Access.Fits (B : Lib.Block) (base : BitVec n) (align : ℕ) (x : Access n) : Prop :=
  align ∣ x.base.toNat ∧ B.InData base x.addr x.len

@[simp] theorem length_writeRandomArmFpreg (d : ArmFpDraws) : (writeRandomArmFpreg d).length = 2 := by
  rw [writeRandomArmFpreg]
  split_ifs
  · exact length_writeRandomFpregVar _ _
  · rw [List.length_append, length_writeRandomFpregVar, length_writeRandomFpregVar]
    rfl

end Risu.Gen.Arm
