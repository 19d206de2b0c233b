import Risu.Lib.BitField
import Risu.Lib.Memory
import Risu.Gen.Perl

/-!
# PowerPC instructions

The instructions that the generators write around the ones under test: how a word is read as one of
them, and what it does.  Registers and addresses have `n` bits, 32 or 64.

* `Insn`, `decode` — instructions and their words;
* `Cpu`, `exec` — the registers and the memory, and one instruction;
* `run` — words one after the other;
* `decode_dForm`, `decode_xForm`, `decode_iForm` — words put together from their fields.
-/

namespace Risu.Gen.Ppc

open Lib

abbrev Word := BitVec 32

abbrev Reg := BitVec 5

/-! ### Instructions -/

/-- The special purpose registers in use. -/
inductive Spr where
  | xer
  | lr
  | ctr

inductive Insn where
  | addi (rt ra : Reg) (si : BitVec 16)
  | addis (rt ra : Reg) (si : BitVec 16)
  | ori (ra rs : Reg) (ui : BitVec 16)
  | subf (rt ra rb : Reg)
  | mtspr (spr : Spr) (rs : Reg)
  | mfspr (rt : Reg) (spr : Spr)
  | mtcrf (fxm : BitVec 8) (rs : Reg)
  | b (li : BitVec 24) (lk : Bool)
  | stw (rs ra : Reg) (d : BitVec 16)
  | lfd (frt ra : Reg) (d : BitVec 16)

/-- The two halves of the number are swapped in a word: `lo` is the field above `hi`. -/
def sprOf (lo hi : BitVec 5) : Option Spr :=
  if hi ≠ 0 then none
  else if lo = 1 then some .xer
  else if lo = 8 then some .lr
  else if lo = 9 then some .ctr
  else none

def decodeD (opcd : BitVec 6) (rt ra : Reg) (d : BitVec 16) : Option Insn :=
  if opcd = 14 then some (.addi rt ra d)
  else if opcd = 15 then some (.addis rt ra d)
  else if opcd = 24 then some (.ori ra rt d)
  else if opcd = 36 then some (.stw rt ra d)
  else if opcd = 50 then some (.lfd rt ra d)
  else none

/-- The instructions of opcode 31, by the ten bits above the record bit. -/
def decodeX (xo : BitVec 10) (rt ra rb : Reg) : Option Insn :=
  if xo = 40 then some (.subf rt ra rb)
  else if xo = 467 then (sprOf ra rb).map fun spr => .mtspr spr rt
  else if xo = 339 then (sprOf ra rb).map fun spr => .mfspr rt spr
  else if xo = 144 then some (.mtcrf (((ra ++ rb : BitVec 10).extractLsb' 1 8)) rt)
  else none

def decode (w : Word) : Option Insn :=
  if w.extractLsb' 26 6 = 18 then
    -- absolute targets are not in use
    if w.extractLsb' 1 1 = 0 then some (.b (w.extractLsb' 2 24) (w.extractLsb' 0 1 == 1)) else none
  else if w.extractLsb' 26 6 = 31 then
    if w.extractLsb' 0 1 = 0 then
      decodeX (w.extractLsb' 1 10) (w.extractLsb' 21 5) (w.extractLsb' 16 5) (w.extractLsb' 11 5)
    else none
  else decodeD (w.extractLsb' 26 6) (w.extractLsb' 21 5) (w.extractLsb' 16 5) (w.extractLsb' 0 16)

/-! ### Execution -/

structure Cpu (n : ℕ) where
  pc : BitVec n
  gpr : Reg → BitVec n
  fpr : Reg → BitVec 64
  lr : BitVec n
  ctr : BitVec n
  xer : BitVec n
  cr : BitVec 32
  mem : BitVec n → Byte

variable {n : ℕ}

namespace Cpu

/-- All registers and the memory zero. -/
def zero (n : ℕ) : Cpu n where
  pc := 0
  gpr := fun _ => 0
  fpr := fun _ => 0
  lr := 0
  ctr := 0
  xer := 0
  cr := 0
  mem := fun _ => 0

def next (s : Cpu n) : Cpu n := { s with pc := s.pc + 4 }

def setGpr (s : Cpu n) (r : Reg) (v : BitVec n) : Cpu n := { s with gpr := Function.update s.gpr r v }

def setFpr (s : Cpu n) (r : Reg) (v : BitVec 64) : Cpu n := { s with fpr := Function.update s.fpr r v }

def setMem (s : Cpu n) (m : BitVec n → Byte) : Cpu n := { s with mem := m }

def getSpr (s : Cpu n) : Spr → BitVec n
  | .xer => s.xer
  | .lr => s.lr
  | .ctr => s.ctr

def setSpr (s : Cpu n) (spr : Spr) (v : BitVec n) : Cpu n :=
  match spr with
  | .xer => { s with xer := v }
  | .lr => { s with lr := v }
  | .ctr => { s with ctr := v }

/-- `(RA|0)` -/
def base (s : Cpu n) (ra : Reg) : BitVec n := if ra = 0#5 then 0#n else s.gpr ra

end Cpu

/-- The bits of the condition register that a mask of its eight fields stands for. -/
def crMask (fxm : BitVec 8) : BitVec 32 :=
  (List.range 8).foldl (fun m i => if fxm.getLsbD i then m ||| (0xf#32 <<< (4 * i)) else m) 0

/-- One instruction, on a host of the given byte order. -/
def exec (o : Order) (i : Insn) (s : Cpu n) : Cpu n :=
  match i with
  | .addi rt ra si => (s.setGpr rt (s.base ra + si.signExtend n)).next
  | .addis rt ra si => (s.setGpr rt (s.base ra + (si ++ 0#16).signExtend n)).next
  | .ori ra rs ui => (s.setGpr ra (s.gpr rs ||| ui.setWidth n)).next
  | .subf rt ra rb => (s.setGpr rt (s.gpr rb - s.gpr ra)).next
  | .mtspr spr rs => (s.setSpr spr (s.gpr rs)).next
  | .mfspr rt spr => (s.setGpr rt (s.getSpr spr)).next
  | .mtcrf fxm rs =>
    ({ s with cr := (s.cr &&& ~~~crMask fxm) ||| ((s.gpr rs).setWidth 32 &&& crMask fxm) } : Cpu n).next
  | .b li lk =>
    { s with
      pc := s.pc + (li ++ 0#2).signExtend n
      lr := if lk then s.pc + 4 else s.lr }
  | .stw rs ra d =>
    (s.setMem (store s.mem (s.base ra + d.signExtend n)
      (bytesOf o 4 ((s.gpr rs).setWidth 32).toNat))).next
  | .lfd frt ra d =>
    (s.setFpr frt (BitVec.ofNat 64 (valueOf o (load s.mem (s.base ra + d.signExtend n) 8)))).next

/-- Words one after the other; `none` if one of them is none of the instructions. -/
def run (o : Order) : List Word → Cpu n → Option (Cpu n)
  | [], s => some s
  | w :: ws, s => (decode w).bind fun i => run o ws (exec o i s)

theorem run_append {o : Order} {ws us : List Word} {s t u : Cpu n} (hs : run o ws s = some t)
    (ht : run o us t = some u) : run o (ws ++ us) s = some u := by
  induction ws generalizing s with
  | nil =>
    cases hs
    exact ht
  | cons w ws ih =>
    rw [run] at hs
    rw [List.cons_append, run]
    cases hw : decode w with
    | none =>
      rw [hw] at hs
      cases hs
    | some i =>
      rw [hw] at hs
      exact ih hs

theorem run_cons {w : Word} {i : Insn} (h : decode w = some i) (o : Order) (ws : List Word)
    (s : Cpu n) : run o (w :: ws) s = run o ws (exec o i s) := by
  rw [run, h]
  rfl

theorem run_singleton {w : Word} {i : Insn} (h : decode w = some i) (o : Order) (s : Cpu n) :
    run o [w] s = some (exec o i s) :=
  run_cons h o [] s

/-! ### Words from fields -/

/-- The number of a register as an operand. -/
def num (r : Reg) : BitVec 64 := r.setWidth 64

def dForm (opcd : BitVec 6) (rt ra : Reg) (d : BitVec 16) : BitVec 64 :=
  (opcd.setWidth 64 <<< 26) ||| (num rt <<< 21) ||| (num ra <<< 16) ||| d.setWidth 64

def xForm (rt ra rb : Reg) (xo : BitVec 10) : BitVec 64 :=
  ((31#6).setWidth 64 <<< 26) ||| (num rt <<< 21) ||| (num ra <<< 16) ||| (num rb <<< 11) |||
    (xo.setWidth 64 <<< 1)

def iForm (li : BitVec 24) (lk : BitVec 1) : BitVec 64 :=
  ((18#6).setWidth 64 <<< 26) ||| (li.setWidth 64 <<< 2) ||| lk.setWidth 64

theorem decode_dForm {opcd : BitVec 6} (hb : opcd ≠ 18) (hx : opcd ≠ 31) (rt ra : Reg)
    (d : BitVec 16) : decode (insn32 (dForm opcd rt ra d)) = decodeD opcd rt ra d := by
  have hop : (insn32 (dForm opcd rt ra d)).extractLsb' 26 6 = opcd := by
    simp [insn32, dForm, num, BitVec.extractLsb'_or]
  have hrt : (insn32 (dForm opcd rt ra d)).extractLsb' 21 5 = rt := by
    simp [insn32, dForm, num, BitVec.extractLsb'_or]
  have hra : (insn32 (dForm opcd rt ra d)).extractLsb' 16 5 = ra := by
    simp [insn32, dForm, num, BitVec.extractLsb'_or]
  have hd : (insn32 (dForm opcd rt ra d)).extractLsb' 0 16 = d := by
    simp [insn32, dForm, num, BitVec.extractLsb'_or]
  rw [decode, hop, hrt, hra, hd, if_neg hb, if_neg hx]

theorem decode_xForm (rt ra rb : Reg) (xo : BitVec 10) :
    decode (insn32 (xForm rt ra rb xo)) = decodeX xo rt ra rb := by
  have hop : (insn32 (xForm rt ra rb xo)).extractLsb' 26 6 = 31 := by
    simp [insn32, xForm, num, BitVec.extractLsb'_or]
  have hrt : (insn32 (xForm rt ra rb xo)).extractLsb' 21 5 = rt := by
    simp [insn32, xForm, num, BitVec.extractLsb'_or]
  have hra : (insn32 (xForm rt ra rb xo)).extractLsb' 16 5 = ra := by
    simp [insn32, xForm, num, BitVec.extractLsb'_or]
  have hrb : (insn32 (xForm rt ra rb xo)).extractLsb' 11 5 = rb := by
    simp [insn32, xForm, num, BitVec.extractLsb'_or]
  have hxo : (insn32 (xForm rt ra rb xo)).extractLsb' 1 10 = xo := by
    simp [insn32, xForm, num, BitVec.extractLsb'_or]
  have hrc : (insn32 (xForm rt ra rb xo)).extractLsb' 0 1 = 0 := by
    simp [insn32, xForm, num, BitVec.extractLsb'_or]
  rw [decode, hop, hrt, hra, hrb, hxo, hrc]
  rfl

theorem decode_iForm (li : BitVec 24) (lk : BitVec 1) :
    decode (insn32 (iForm li lk)) = some (.b li (lk == 1)) := by
  have hop : (insn32 (iForm li lk)).extractLsb' 26 6 = 18 := by
    simp [insn32, iForm, BitVec.extractLsb'_or]
  have hli : (insn32 (iForm li lk)).extractLsb' 2 24 = li := by
    simp [insn32, iForm, BitVec.extractLsb'_or]
  have haa : (insn32 (iForm li lk)).extractLsb' 1 1 = 0 := by
    simp [insn32, iForm, BitVec.extractLsb'_or]
  have hlk : (insn32 (iForm li lk)).extractLsb' 0 1 = lk := by
    simp [insn32, iForm, BitVec.extractLsb'_or]
  rw [decode, hop, hli, haa, hlk]
  rfl

end Risu.Gen.Ppc
