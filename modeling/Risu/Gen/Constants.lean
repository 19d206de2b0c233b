import Risu.Gen.Arm
import Risu.Gen.Ppc.Double

/-!
# Constants in registers

The generators that put a number into a register agree with its value: `write_mov_ri` of
`risugen_loongarch64.pm` here, the others where their code is.

* `LoongArch.writeMovRi`, `LoongArch.run` — two instructions and what they do;
* `constants_materialised` — all of them, for every number they are given.
-/

namespace Risu.Gen

open Lib

/-! ### LoongArch -/

namespace LoongArch

/-- `lu12i.w` and `ori`; `none` where the generator dies. -/
def writeMovRi (rd : BitVec 64) (imm : ℤ) : Option (List (BitVec 32)) :=
  if -0x80000000 ≤ imm ∧ imm ≤ 0x7fffffff then
    some [insn32 (0x14000000#64 ||| (((uv imm >>> 12) &&& 0xfffff#64) <<< 5) ||| rd),
      insn32 (0x03800000#64 ||| ((uv imm &&& 0xfff#64) <<< 10) ||| (rd <<< 5) ||| rd)]
  else none

inductive Insn where
  | lu12iw (rd : BitVec 5) (si20 : BitVec 20)
  | ori (rd rj : BitVec 5) (ui12 : BitVec 12)

def decode (w : BitVec 32) : Option Insn :=
  if w.extractLsb' 25 7 = 0x0a then some (.lu12iw (w.extractLsb' 0 5) (w.extractLsb' 5 20))
  else if w.extractLsb' 22 10 = 0x00e then
    some (.ori (w.extractLsb' 0 5) (w.extractLsb' 5 5) (w.extractLsb' 10 12))
  else none

abbrev Regs := BitVec 5 → BitVec 64

/-- Register 0 is zero. -/
def get (regs : Regs) (r : BitVec 5) : BitVec 64 := if r = 0 then 0 else regs r

def set (regs : Regs) (r : BitVec 5) (v : BitVec 64) : Regs :=
  if r = 0 then regs else Function.update regs r v

def exec (regs : Regs) : Insn → Regs
  | .lu12iw rd si20 => set regs rd ((si20 ++ 0#12).signExtend 64)
  | .ori rd rj ui12 => set regs rd (get regs rj ||| ui12.setWidth 64)

def run : List (BitVec 32) → Regs → Option Regs
  | [], regs => some regs
  | w :: ws, regs => (decode w).bind fun i => run ws (exec regs i)

theorem decode_lu12iw (rd : BitVec 5) (si20 : BitVec 20) :
    decode (insn32 (0x14000000#64 ||| (si20.setWidth 64 <<< 5) ||| rd.setWidth 64)) =
      some (.lu12iw rd si20) := by
  set w := insn32 (0x14000000#64 ||| (si20.setWidth 64 <<< 5) ||| rd.setWidth 64) with hw
  have hop : w.extractLsb' 25 7 = 0x0a := by simp [hw, insn32, BitVec.extractLsb'_or]
  have hrd : w.extractLsb' 0 5 = rd := by simp [hw, insn32, BitVec.extractLsb'_or]
  have hsi : w.extractLsb' 5 20 = si20 := by simp [hw, insn32, BitVec.extractLsb'_or]
  rw [decode, hop, hrd, hsi]
  rfl

theorem decode_ori (rd rj : BitVec 5) (ui12 : BitVec 12) :
    decode (insn32 (0x03800000#64 ||| (ui12.setWidth 64 <<< 10) ||| (rj.setWidth 64 <<< 5) |||
      rd.setWidth 64)) = some (.ori rd rj ui12) := by
  set w := insn32 (0x03800000#64 ||| (ui12.setWidth 64 <<< 10) ||| (rj.setWidth 64 <<< 5) |||
    rd.setWidth 64) with hw
  have hop : w.extractLsb' 22 10 = 0x00e := by simp [hw, insn32, BitVec.extractLsb'_or]
  have hnot : w.extractLsb' 25 7 = 0x01 := by simp [hw, insn32, BitVec.extractLsb'_or]
  have hrd : w.extractLsb' 0 5 = rd := by simp [hw, insn32, BitVec.extractLsb'_or]
  have hrj : w.extractLsb' 5 5 = rj := by simp [hw, insn32, BitVec.extractLsb'_or]
  have hui : w.extractLsb' 10 12 = ui12 := by simp [hw, insn32, BitVec.extractLsb'_or]
  rw [decode, hop, hnot, hrd, hrj, hui]
  rfl

/-- The upper 20 bits with their sign and the lower 12 make up the number. -/
theorem lu12iw_ori_value {x : BitVec 64}
    (h : ∀ i, 31 ≤ i → i < 64 → x.getLsbD i = x.getLsbD 31) :
    ((x >>> 12).setWidth 20 ++ 0#12).signExtend 64 ||| (x.setWidth 12).setWidth 64 = x := by
  have hmsb : ((x >>> 12).setWidth 20 ++ 0#12 : BitVec 32).msb = x.getLsbD 31 := by
    rw [BitVec.msb_eq_getLsbD_last, BitVec.getLsbD_append, BitVec.getLsbD_setWidth,
      BitVec.getLsbD_ushiftRight]
    rfl
  apply BitVec.eq_of_getLsbD_eq
  intro i hi
  rw [BitVec.getLsbD_or, BitVec.getLsbD_signExtend, BitVec.getLsbD_append, BitVec.getLsbD_setWidth,
    BitVec.getLsbD_setWidth, BitVec.getLsbD_setWidth, BitVec.getLsbD_ushiftRight]
  by_cases hlow : i < 12
  · have hlt : i < 32 := by omega
    simp [hi, hlow, hlt]
  · have hsub : 12 + (i - 12) = i := by omega
    by_cases hmid : i < 32
    · have hlt : i - 12 < 20 := by omega
      simp [hi, hlow, hmid, hsub, hlt]
    · rw [if_neg hmid, hmsb, h i (by omega) hi, decide_eq_true hi, decide_eq_false hlow]
      simp

/-- **The register gets the number**, and no other register changes. -/
theorem run_writeMovRi {rd : BitVec 5} (hrd : rd ≠ 0) {imm : ℤ} (h : -2 ^ 31 ≤ imm)
    (h' : imm < 2 ^ 31) (regs : Regs) :
    ∃ code, writeMovRi (rd.setWidth 64) imm = some code ∧
      run code regs = some (Function.update regs rd (BitVec.ofInt 64 imm)) := by
  have hsign : ∀ i, 31 ≤ i → i < 64 → (uv imm).getLsbD i = decide (imm < 0) :=
    fun i => getLsbD_uv_high h h'
  rw [← uv_eq_ofInt (by omega) (by omega)]
  refine ⟨_, if_pos ⟨by omega, by omega⟩, ?_⟩
  rw [show 0xfffff#64 = ones 64 20 from rfl, show 0xfff#64 = ones 64 12 from rfl, and_ones, and_ones,
    run, decode_lu12iw, Option.bind_some, run, decode_ori, Option.bind_some, run, exec, exec, get, set,
    set, if_neg hrd, if_neg hrd, if_neg hrd, Function.update_self, Function.update_idem,
    lu12iw_ori_value]
  intro i hge hi
  rw [hsign i hge hi, hsign 31 (by decide) (by decide)]

end LoongArch

/-! ### All generators -/

/-- The low 32 bits of the register are those of the number, and nothing else has changed. -/
def Ppc.Gets {n : ℕ} (s t : Ppc.Cpu n) (rd : Ppc.Reg) (imm : ℤ) : Prop :=
  (t.gpr rd).setWidth 32 = BitVec.ofInt 32 imm ∧ (∀ r, r ≠ rd → t.gpr r = s.gpr r) ∧
    t.fpr = s.fpr ∧ t.lr = s.lr ∧ t.ctr = s.ctr ∧ t.xer = s.xer ∧ t.cr = s.cr ∧ t.mem = s.mem

theorem Ppc.run_writeMovRi_gets {n : ℕ} (hn : 32 ≤ n) (o : Order) (rd : Ppc.Reg) {imm : ℤ}
    (h : -2 ^ 31 ≤ imm) (h' : imm < 2 ^ 32) (s : Ppc.Cpu n) :
    ∃ t, Ppc.run o (Ppc.writeMovRi rd imm) s = some t ∧ Ppc.Gets s t rd imm := by
  obtain ⟨pc, hrun⟩ := Ppc.run_writeMovRi o rd imm s
  refine ⟨_, hrun, ?_, ?_, rfl, rfl, rfl, rfl, rfl, rfl⟩
  · show (Function.update s.gpr rd (Ppc.movValue n (uv imm)) rd).setWidth 32 = _
    rw [Function.update_self, Ppc.movValue_low hn, setWidth_uv h h']
  · intro r hr
    exact Function.update_of_ne hr _ _

/-- **Constants are materialised**: on PowerPC by `write_li32` and by `write_mov_ri`, in the three modes
of Arm, on LoongArch, and floating-point patterns by `write_load_double`. -/
theorem constants_materialised (imm : ℤ) (h : -2 ^ 31 ≤ imm) (h' : imm < 2 ^ 32) :
    (∀ n, 32 ≤ n → ∀ (o : Order) (rd : Ppc.Reg) (s : Ppc.Cpu n),
      (∃ t, Ppc.run o (Ppc.writeLi32 rd imm) s = some t ∧ Ppc.Gets s t rd imm) ∧
      ∃ t, Ppc.run o (Ppc.writeMovRi rd imm) s = some t ∧ Ppc.Gets s t rd imm) ∧
    (∀ m : Arm.Mode, m ≠ .aarch64 → ∀ rd : BitVec 4, m.canMove rd → ∀ regs,
      ∃ code, Arm.writeMovRi m (rd.setWidth 64) imm = some code ∧
        Arm.runMoves m code regs = some (Function.update regs rd (BitVec.ofInt 32 imm))) ∧
    (∀ rd : BitVec 5, rd ≠ 31 → ∀ regs,
      ∃ code, Arm.writeMovRi .aarch64 (rd.setWidth 64) imm = some code ∧
        Arm.runA64 code regs = some (Function.update regs rd (BitVec.ofInt 64 imm))) ∧
    (imm < 2 ^ 31 → ∀ rd : BitVec 5, rd ≠ 0 → ∀ regs,
      ∃ code, LoongArch.writeMovRi (rd.setWidth 64) imm = some code ∧
        LoongArch.run code regs = some (Function.update regs rd (BitVec.ofInt 64 imm))) ∧
    ∀ n, 32 ≤ n → ∀ (fD : Ppc.Reg) (d : BitVec 64) (s : Ppc.Cpu n),
      ∃ t, Ppc.run .big (Ppc.writeLoadDouble fD d.toNat) s = some t ∧ t.fpr fD = d := by
  refine ⟨fun n hn o rd s => ⟨?_, Ppc.run_writeMovRi_gets hn o rd h h' s⟩,
    fun m hm rd hrd regs => Arm.runMoves_writeMovRi hm hrd h h' regs,
    fun rd hrd regs => Arm.runA64_writeMovRi hrd h h' regs,
    fun hlt rd hrd regs => LoongArch.run_writeMovRi hrd h hlt regs,
    fun n hn fD d s => Ppc.run_writeLoadDouble hn fD d s⟩
  rw [Ppc.writeLi32_eq rd (by omega) (by omega)]
  exact Ppc.run_writeMovRi_gets hn o rd h h' s

theorem constants_materialised_0x8000 :
    (∃ t, Ppc.run .big (Ppc.writeMovRi 5#5 0x8000) (Ppc.Cpu.zero 64) = some t ∧
      Ppc.Gets (Ppc.Cpu.zero 64) t 5#5 0x8000) ∧
    (∃ code, Arm.writeMovRi .thumb ((3#4).setWidth 64) 0x8000 = some code ∧
      Arm.runMoves .thumb code (fun _ => 0) =
        some (Function.update (fun _ => 0) 3#4 (BitVec.ofInt 32 0x8000))) ∧
    ∃ code, LoongArch.writeMovRi ((4#5).setWidth 64) 0x8000 = some code ∧
      LoongArch.run code (fun _ => 0) =
        some (Function.update (fun _ => 0) 4#5 (BitVec.ofInt 64 0x8000)) := by
  obtain ⟨hppc, harm, -, hloong, -⟩ := constants_materialised 0x8000 (by decide) (by decide)
  exact ⟨(hppc 64 (by decide) .big 5#5 (Ppc.Cpu.zero 64)).2,
    harm .thumb (by decide) 3#4 ⟨by decide, fun _ => by decide⟩ _,
    hloong (by decide) 4#5 (by decide) _⟩

end Risu.Gen
