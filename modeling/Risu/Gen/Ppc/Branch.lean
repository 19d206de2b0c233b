import Risu.Gen.Ppc.Emit
import Risu.Lib.Partial

/-!
# Blocks around branches (`branch_pre`, `branch_post`)

A branch under test is written between a jump to it with fillers in front of it, if it goes back, and
fillers behind it, if it goes forward.

* `displacement`, `branchPre`, `branchPost` — the words that are written;
* `Form`, `Branch` — how the branch under test gets its target, and what it does;
* `stepBlock` — one step inside the block;
* `RunsOnce` — the block runs to its end, and through the branch once.
-/

namespace Risu.Gen.Ppc

open Lib

/-! ### Words -/

/-- The displacement as a signed number; a negative size stands for a register. -/
def displacement (bd bdsize : ℤ) : ℤ :=
  if 0 < bdsize then
    let sign := shr (uv bd) (bdsize - 1)
    ((uv bd &&& (shl 1#64 bdsize - 1#64)).toNat : ℤ) -
      (if sign ≠ 0 then ((shl 1#64 bdsize).toNat : ℤ) else 0)
  else bd

/-- What `irand` returns in the two functions, for a displacement. -/
structure Draws (bd : ℤ) where
  ctr : Fin (3 + 1)
  cr : Fin (0xffffffff + 1)
  filler2 : Fin ((-bd).toNat + 1)
  extra : Fin (3 + 1)
  r5 : Fin (0x7fff + 1)

/-- `mtcrf 0xff, r5` -/
def mtcrf : Word := insn32 ((31#64 <<< 26) ||| (5#64 <<< 21) ||| (255#64 <<< 12) ||| (144#64 <<< 1))

/-- The registers that decide whether a conditional branch is taken. -/
def conditionSetup (bdsize ctr cr : ℤ) : List Word :=
  (if bdsize ≠ -1 then writeMovRi 5#5 (ctr - 1) ++ [mtspr 9#64 5#5] else []) ++
    writeMovRi 5#5 cr ++ [mtcrf]

/-- The target in a register, from the address that `bl +4` leaves. -/
def targetSetup (bd bdsize : ℤ) : List Word :=
  [insn32 ((18#64 <<< 26) ||| 4#64 ||| 1#64), mfspr 8#64 5#5] ++
    (if bd < 0 then writeAddRi 5#5 5#5 16
      else writeAddRi 5#5 5#5 (12 + (shl (uv bd) 2).toNat)) ++
    [if bdsize = -1 then mtspr 9#64 5#5 else mtspr 8#64 5#5]

def branchSetup (bd bdsize ctr cr : ℤ) : List Word :=
  conditionSetup bdsize ctr cr ++ if bdsize < 0 then targetSetup bd bdsize else []

/-- `addi r, r, 1`, some times. -/
def fillers (count : ℤ) (r : Reg) : List Word := (List.replicate count.toNat (writeAddRi r r 1)).flatten

/-- The jump to the branch under test and the fillers in front of it. -/
def branchEntry (bd filler2 : ℤ) : List Word :=
  if bd < 0 then
    [insn32 ((18#64 <<< 26) ||| shl (uv (1 - bd - filler2)) 2)] ++
      fillers (-(bd + 1 + filler2)) 3#5 ++
      [insn32 ((18#64 <<< 26) ||| uv (8 + (shl (uv filler2) 2).toNat))] ++
      fillers filler2 6#5
  else []

def branchPre (bd bdsize ctr cr filler2 : ℤ) : List Word :=
  let bd := displacement bd bdsize
  (if bdsize < 24 then branchSetup bd bdsize ctr cr else []) ++ branchEntry bd filler2

def branchPost (bd bdsize extra r5 : ℤ) : List Word :=
  let bd := displacement bd bdsize
  let bd := if bd ≤ 0 then 1 else bd
  fillers (bd - 1) 7#5 ++ fillers extra 4#5 ++
    if bdsize < 0 then
      (if bdsize = -1 then [mfspr 9#64 8#5] ++ writeSubfR 8#5 5#5 8#5 ++ [mtspr 9#64 8#5]
        else [mfspr 8#64 8#5] ++ writeSubfR 8#5 5#5 8#5) ++
        writeMovRi 5#5 r5
    else []

/-! ### The branch under test -/

/-- The displacement is in 14 or 24 bits of the branch, or the target in a register. -/
inductive Form where
  | bits14
  | bits24
  | ctr
  | lr

def Form.bdsize : Form → ℤ
  | bits14 => 14
  | bits24 => 24
  | ctr => -1
  | lr => -2

/-- Where the branch goes if it is taken. -/
def Form.target (f : Form) (bd : ℤ) (s : Cpu 64) : BitVec 64 :=
  match f with
  | bits14 | bits24 => s.pc + BitVec.ofInt 64 (4 * bd)
  | ctr => s.ctr
  | lr => s.lr

/-- The branch under test: it falls through or goes to its target, and may change registers. -/
structure Branch (f : Form) (bd : ℤ) where
  exec : Cpu 64 → Cpu 64
  pc_exec : ∀ s, (exec s).pc = s.pc + 4 ∨ (exec s).pc = f.target bd s

/-! ### Execution of a block -/

/-- A block of words at an address, with a branch under test among them. -/
structure Block (f : Form) (bd : ℤ) where
  start : BitVec 64
  pre : List Word
  post : List Word
  branch : Branch f bd

namespace Block

variable {f : Form} {bd : ℤ} (b : Block f bd)

/-- Number of instructions. -/
def length : ℕ := b.pre.length + 1 + b.post.length

/-- The address of an instruction, or of the first one behind the block. -/
def addr (i : ℕ) : BitVec 64 := b.start + BitVec.ofNat 64 (4 * i)

/-- The number of the instruction that a state is at. -/
def index (s : Cpu 64) : ℕ := (s.pc - b.start).toNat / 4

/-- The words around the branch under test, by their numbers in the block. -/
def word (i : ℕ) : Option Word :=
  if i < b.pre.length then b.pre[i]? else b.post[i - (b.pre.length + 1)]?

/-- One step, if the state is at an instruction of the block. -/
def step (o : Order) (s : Cpu 64) : Option (Cpu 64) :=
  if (s.pc - b.start).toNat % 4 ≠ 0 then none
  else if b.index s = b.pre.length then some (b.branch.exec s)
  else (b.word (b.index s)).bind fun w => (decode w).map fun i => exec o i s

/-- **The block runs to its end, and through the branch once**: from its first instruction on every
state is at an instruction of the block, until the one behind the block is reached. -/
def RunsOnce (o : Order) (s : Cpu 64) : Prop :=
  ∃ visited t, Visits (b.step o) b.index s visited t ∧ t.pc = b.addr b.length ∧
    visited.count b.pre.length = 1

end Block

/-- The block for a displacement, with the values that the two functions are called with. -/
def testBlock {f : Form} {bd : ℤ} (start : BitVec 64) (v v' : ℤ) (d : Draws bd)
    (branch : Branch f bd) : Block f bd where
  start := start
  pre := branchPre v f.bdsize (d.ctr : ℕ) (d.cr : ℕ) (d.filler2 : ℕ)
  post := branchPost v' f.bdsize (d.extra : ℕ) (d.r5 : ℕ)
  branch := branch

end Risu.Gen.Ppc
