import Risu.Gen.Arm.Inline
import Risu.Lib.Memory

/-!
# Inline data in ARM mode

* `OpA32`, `cpuA32` — the instructions that the code is made of, and a processor;
* `InlineA32.SelfContained` — what is read is in the data, and the jump leads over the data;
* `selfContainedA32` — it is so at every address.
-/

namespace Risu.Gen.Arm

open Lib

/-! ### Instructions -/

inductive OpA32 where
  | insn (i : Insn)
  /-- `ADD` of an immediate to the program counter. -/
  | adr (rd : BitVec 4) (imm : BitVec 8)
  | bic (rd rn : BitVec 4) (imm : BitVec 8)
  | b (offs : BitVec 24)
  | ldm (rn : BitVec 4) (list : BitVec 16)
  /-- `VLDMIA` of doublewords, with writeback. -/
  | vldm (rn : BitVec 4) (words : BitVec 8)
  | msr

/-- A word of A32, with the program counter. -/
def decodeOpA32 (w : Word) : Option OpA32 :=
  let rn := w.extractLsb' 16 4
  let rd := w.extractLsb' 12 4
  let imm := w.extractLsb' 0 8
  match decodeWord w with
  | some i => some (.insn i)
  | none =>
    if w.extractLsb' 24 8 = 0xea then some (.b (w.extractLsb' 0 24))
    else if w.extractLsb' 20 12 = 0xe89 ∧ rn ≠ 15 ∧ w.extractLsb' 15 1 = 0 then
      some (.ldm rn (w.extractLsb' 0 16))
    else if w.extractLsb' 23 9 = 0x1d9 ∧ w.extractLsb' 20 2 = 3 ∧ w.extractLsb' 8 4 = 0xb ∧ rn ≠ 15 then
      some (.vldm rn imm)
    else if w = 0xe32cf000 then some .msr
    else if rd = 15 ∨ w.extractLsb' 8 4 ≠ 0 then none
    else if w.extractLsb' 20 12 = 0xe28 ∧ rn = 15 then some (.adr rd imm)
    else if w.extractLsb' 20 12 = 0xe3c ∧ rn ≠ 15 then some (.bic rd rn imm)
    else none

/-- A processor in `risu`; `accesses` are the loads so far.  The floating-point registers are left
out. -/
structure CpuA32 where
  pc : BitVec 32
  regs : Regs
  mem : BitVec 32 → Byte
  memblock : BitVec 32
  accesses : List (Access 32)

namespace CpuA32

def next (s : CpuA32) : CpuA32 := { s with pc := s.pc + BitVec.ofNat 32 4 }

def access (s : CpuA32) (a : BitVec 32) (len : ℕ) : CpuA32 :=
  { s with accesses := s.accesses ++ [⟨a, a, len⟩] }

def loadWord (s : CpuA32) (a : BitVec 32) : BitVec 32 := BitVec.ofNat 32 (leValue (load s.mem a 4))

/-- The processor at the start of a block. -/
def start (s : CpuA32) (base : BitVec 32) : CpuA32 := { s with pc := base, accesses := [] }

end CpuA32

/-- `OP_SETMEMBLOCK` -/
def Insn.setsMemblock : Insn → Bool
  | risuop op => op = 2
  | _ => false

/-- The registers of a list, lowest first. -/
def listRegs (list : BitVec 16) : List (BitVec 4) :=
  ((List.range 16).filter list.getLsbD).map (BitVec.ofNat 4)

def OpA32.exec (s : CpuA32) : OpA32 → CpuA32
  | insn i =>
    { s.next with
      regs := i.exec s.memblock s.regs
      memblock := if i.setsMemblock then s.regs 0 else s.memblock }
  -- the program counter is read as the address of the instruction and 8
  | adr rd imm => { s.next with regs := Function.update s.regs rd (s.pc + 8 + imm.setWidth 32) }
  | bic rd rn imm => { s.next with regs := Function.update s.regs rd (s.regs rn &&& ~~~imm.setWidth 32) }
  | b offs => { s with pc := s.pc + 8 + (offs ++ 0#2).signExtend 32 }
  | ldm rn list =>
    { s.next.access (s.regs rn) (4 * (listRegs list).length) with
      regs := (listRegs list).zipIdx.foldl
        (fun regs r => Function.update regs r.1 (s.loadWord (s.regs rn + BitVec.ofNat 32 (4 * r.2)))) s.regs }
  | vldm rn words =>
    { s.next.access (s.regs rn) (4 * words.toNat) with
      regs := Function.update s.regs rn (s.regs rn + BitVec.ofNat 32 (4 * words.toNat)) }
  | msr => s.next

/-- The instructions are those that were written: nothing is stored. -/
def cpuA32 : Machine 32 CpuA32 := opMachine CpuA32.pc decodeOpA32 OpA32.exec

/-- The instructions that go on behind themselves. -/
def OpA32.flows : OpA32 → Bool
  | b _ => false
  | _ => true

theorem OpA32.pc_exec {i : OpA32} (h : i.flows = true) (s : CpuA32) :
    (i.exec s).pc = s.pc + BitVec.ofNat 32 4 := by
  cases i with
  | b offs => cases h
  | _ => rfl

/-! ### What is to hold -/

/-- The code in ARM mode that has data in it, with what is drawn. -/
inductive InlineA32 where
  | memblock (data : Fin ((8192 + 64) / 4) → Word)
  | regdata (fpEnabled : Bool) (fp : Fin 32 → ArmFpDraws) (words : Fin 14 → Word)

/-- The code runs over its data, its base registers are aligned, and what is read, or the whole memory
block, is in the data. -/
def InlineA32.SelfContained (base : BitVec 32) (s : CpuA32) : InlineA32 → Prop
  | memblock data => ∃ B t, memblockSetup .arm data = some B ∧ B.Runs cpuA32 base (s.start base) t ∧
      64 ∣ (t.regs 0).toNat ∧ t.memblock = t.regs 0 ∧ B.InData base (t.regs 0) 8192
  | regdata fpEnabled fp words => ∃ t, (armRegdata fpEnabled fp words).Runs cpuA32 base (s.start base) t ∧
      t.accesses ≠ [] ∧ ∀ x ∈ t.accesses, x.Fits (armRegdata fpEnabled fp words) base 4

/-- A block of ARM mode runs through its instructions. -/
theorem runs_of_opsA32 {B : Lib.Block} {ops restOps : List OpA32} {offs : BitVec 24}
    (hsetup : B.setup.map decodeOpA32 = ops.map some) (hflow : ∀ i ∈ ops, i.flows = true)
    (hjump : decodeOpA32 B.jump = some (.b offs))
    (hoffs : 8 + (offs ++ 0#2).signExtend 32 = BitVec.ofNat 32 (4 + B.data.length))
    (hrest : B.rest.map decodeOpA32 = restOps.map some) (hflow' : ∀ i ∈ restOps, i.flows = true)
    (hlen : B.image.length ≤ 2 ^ 32) (base : BitVec 32) (s : CpuA32) :
    B.Runs cpuA32 base (s.start base)
      (restOps.foldl OpA32.exec ((OpA32.b offs).exec (ops.foldl OpA32.exec (s.start base)))) := by
  have hland (s : CpuA32) : ((OpA32.b offs).exec s).pc = s.pc + BitVec.ofNat 32 (4 + B.data.length) := by
    rw [← hoffs, ← BitVec.add_assoc]
    rfl
  exact Lib.Block.runs_of_ops hsetup (fun i hi => OpA32.pc_exec (hflow i hi)) hjump hland hrest
    (fun i hi => OpA32.pc_exec (hflow' i hi)) hlen (s := s.start base) rfl

/-! ### The memory block -/

/-- The memory block and its setup, in words. -/
def memblockCodeA32 (data : List Word) : Lib.Block where
  setup := [0xe28f0047#32, 0xe3c0003f#32, 0xe7fe5af2#32]
  jump := 0xea00080f#32
  data := wordBytes data
  rest := []

theorem memblockSetup_arm (data : Fin ((8192 + 64) / 4) → Word) :
    memblockSetup .arm data = some (memblockCodeA32 (List.ofFn data)) := by
  have halign : writeAlignReg .arm 0 64 = some 0xe3c0003f#32 := rfl
  have hadr : writePcAdr .arm 0 (4 * 4 + (64 - 1)) = 0xe28f0047#32 := by decide
  have hjump : writeJumpFwd .arm (8192 + 64) = 0xea00080f#32 := by decide
  have hop : risuopWord .arm 2 = 0xe7fe5af2#32 := rfl
  rw [memblockSetup, halign, hadr, hjump, memblockCodeA32, hop]
  exact rfl

theorem target_memblockCodeA32 {data : List Word} (hdata : data.length = 2064) :
    (memblockCodeA32 data).target = 8272 ∧ (memblockCodeA32 data).image.length = 8272 := by
  have hlen : (memblockCodeA32 data).data.length = 8256 := by
    rw [memblockCodeA32, length_wordBytes, hdata]
  have hstart : (memblockCodeA32 data).start = 16 := rfl
  have hrest : (memblockCodeA32 data).rest.length = 0 := rfl
  rw [Lib.Block.length_image, Lib.Block.target, hlen, hstart, hrest]
  exact ⟨rfl, rfl⟩

theorem selfContained_memblockA32 (data : Fin ((8192 + 64) / 4) → Word) (base : BitVec 32) (s : CpuA32) :
    (InlineA32.memblock data).SelfContained base s := by
  have hdata : (List.ofFn data).length = 2064 := List.length_ofFn
  have hlen : (memblockCodeA32 (List.ofFn data)).data.length = 8256 := by
    rw [memblockCodeA32, length_wordBytes, hdata]
  obtain ⟨htarget, himage⟩ := target_memblockCodeA32 hdata
  have hsetup : (memblockCodeA32 (List.ofFn data)).setup.map decodeOpA32 =
      [OpA32.adr 0 71, .bic 0 0 63, .insn (.risuop 2)].map some := rfl
  have hjump : decodeOpA32 (memblockCodeA32 (List.ofFn data)).jump = some (.b 2063) := by
    show decodeOpA32 0xea00080f#32 = _
    rfl
  have hrest : (memblockCodeA32 (List.ofFn data)).rest.map decodeOpA32 = ([] : List OpA32).map some := rfl
  have hruns := runs_of_opsA32 hsetup (by decide) hjump (by rw [hlen]; decide) hrest (by decide)
    (by rw [himage]; decide) base s
  have hr0 : ∀ t, t = (base + BitVec.ofNat 32 79) &&& ~~~63#32 → 64 ∣ t.toNat ∧
      (memblockCodeA32 (List.ofFn data)).InData base t 8192 := by
    rintro t rfl
    refine ⟨dvd_toNat_and (k := 6) _ _ (by decide), ?_⟩
    obtain ⟨d, hd, hoff⟩ := @toNat_cut_sub 32 base (~~~63#32) 79 63 (by decide) (by decide) (by decide)
    rw [Lib.Block.InData, hoff, htarget]
    exact ⟨show 16 ≤ 79 - d by omega, by omega⟩
  refine ⟨_, _, memblockSetup_arm data, hruns, ?_⟩
  have hval : (base + 8 + (71#8).setWidth 32) &&& ~~~(63#8).setWidth 32 =
      (base + BitVec.ofNat 32 79) &&& ~~~63#32 := by
    rw [BitVec.add_assoc]
    rfl
  obtain ⟨halign, hdata⟩ := hr0 _ hval
  exact ⟨halign, rfl, hdata⟩

/-! ### The registers -/

theorem length_regdataWords (fpEnabled : Bool) (fp : Fin 32 → ArmFpDraws) (words : Fin 14 → Word) :
    (regdataWords fpEnabled fp words).length = if fpEnabled then 78 else 14 := by
  rw [regdataWords, List.length_append, List.length_ofFn]
  cases fpEnabled with
  | false => rfl
  | true =>
    rw [if_pos rfl, length_flatMap_const length_writeRandomArmFpreg, List.length_ofFn]
    rfl

theorem length_armRegdata (fpEnabled : Bool) (fp : Fin 32 → ArmFpDraws) (words : Fin 14 → Word) :
    (armRegdata fpEnabled fp words).data.length = if fpEnabled then 312 else 56 := by
  rw [armRegdata, length_wordBytes, length_regdataWords]
  cases fpEnabled <;> rfl

/-- The instructions before the data. -/
def regdataOps (fpEnabled : Bool) : List OpA32 :=
  (if fpEnabled then [.adr 0 12, .vldm 0 32, .vldm 0 32] else [.adr 0 4]) ++ [.ldm 0 0x5fff]

/-- The offsets of the loads, and their lengths. -/
def regdataLoads (fpEnabled : Bool) : List (ℕ × ℕ) :=
  if fpEnabled then [(20, 128), (148, 128), (276, 56)] else [(12, 56)]

theorem accesses_regdata (fpEnabled : Bool) (base : BitVec 32) (s : CpuA32) :
    ((regdataOps fpEnabled).foldl OpA32.exec (s.start base)).accesses =
      (regdataLoads fpEnabled).map fun x =>
        ⟨base + BitVec.ofNat 32 x.1, base + BitVec.ofNat 32 x.1, x.2⟩ := by
  have hlist : (listRegs 0x5fff#16).length = 14 := by decide
  cases fpEnabled with
  | false =>
    show [Access.mk (base + 8 + 4) (base + 8 + 4) (4 * (listRegs 0x5fff#16).length)] = _
    rw [hlist, BitVec.add_assoc]
    rfl
  | true =>
    show [Access.mk (base + 8 + 12) (base + 8 + 12) 128,
      ⟨base + 8 + 12 + BitVec.ofNat 32 128, base + 8 + 12 + BitVec.ofNat 32 128, 128⟩,
      ⟨base + 8 + 12 + BitVec.ofNat 32 128 + BitVec.ofNat 32 128,
        base + 8 + 12 + BitVec.ofNat 32 128 + BitVec.ofNat 32 128, 4 * (listRegs 0x5fff#16).length⟩] = _
    have hadr : base + 8 + 12 = base + BitVec.ofNat 32 20 := BitVec.add_assoc base 8 12
    have hfirst : base + BitVec.ofNat 32 20 + BitVec.ofNat 32 128 = base + BitVec.ofNat 32 148 := by
      rw [BitVec.add_assoc, ← BitVec.ofNat_add]
    have hsecond : base + BitVec.ofNat 32 148 + BitVec.ofNat 32 128 = base + BitVec.ofNat 32 276 := by
      rw [BitVec.add_assoc, ← BitVec.ofNat_add]
    rw [hlist, hadr, hfirst, hsecond]
    rfl

theorem target_armRegdata (fpEnabled : Bool) (fp : Fin 32 → ArmFpDraws) (words : Fin 14 → Word) :
    (armRegdata fpEnabled fp words).start = (if fpEnabled then 20 else 12) ∧
      (armRegdata fpEnabled fp words).target = (if fpEnabled then 332 else 68) ∧
      (armRegdata fpEnabled fp words).image.length = (if fpEnabled then 336 else 72) := by
  have hlen := length_armRegdata fpEnabled fp words
  rw [Lib.Block.length_image, Lib.Block.target, hlen]
  cases fpEnabled with
  | false => exact ⟨rfl, rfl, rfl⟩
  | true => exact ⟨rfl, rfl, rfl⟩

theorem selfContained_regdataA32 (fpEnabled : Bool) (fp : Fin 32 → ArmFpDraws) (words : Fin 14 → Word)
    {base : BitVec 32} (hbase : 4 ∣ base.toNat) (s : CpuA32) :
    (InlineA32.regdata fpEnabled fp words).SelfContained base s := by
  have hlen := length_armRegdata fpEnabled fp words
  obtain ⟨hstart, htarget, himage⟩ := target_armRegdata fpEnabled fp words
  have hsetup : (armRegdata fpEnabled fp words).setup.map decodeOpA32 =
      (regdataOps fpEnabled).map some := by
    cases fpEnabled <;> rfl
  have hjump : decodeOpA32 (armRegdata fpEnabled fp words).jump =
      some (.b (if fpEnabled then 77 else 13)) := by
    have hword : (armRegdata fpEnabled fp words).jump =
        if fpEnabled then 0xea00004d#32 else 0xea00000d#32 := by
      cases fpEnabled <;> rfl
    rw [hword]
    cases fpEnabled <;> rfl
  have hrest : (armRegdata fpEnabled fp words).rest.map decodeOpA32 = [OpA32.msr].map some := rfl
  have hruns := runs_of_opsA32 hsetup (by cases fpEnabled <;> decide) hjump
    (by rw [hlen]; cases fpEnabled <;> decide) hrest (by decide)
    (by rw [himage]; cases fpEnabled <;> decide) base s
  have haccess := accesses_regdata fpEnabled base s
  refine ⟨_, hruns, ?_, fun x hx => ?_⟩
  · rw [List.foldl_cons, List.foldl_nil]
    show ((regdataOps fpEnabled).foldl OpA32.exec (s.start base)).accesses ≠ []
    rw [haccess]
    cases fpEnabled <;> exact List.cons_ne_nil _ _
  · have hx' : x ∈ ((regdataOps fpEnabled).foldl OpA32.exec (s.start base)).accesses := hx
    rw [haccess] at hx'
    obtain ⟨⟨k, len⟩, hmem, rfl⟩ := List.mem_map.mp hx'
    have hload : 4 ∣ k ∧ k < 2 ^ 32 ∧ (if fpEnabled then 20 else 12) ≤ k ∧
        k + len ≤ (if fpEnabled then 332 else 68) := by
      have hall : ∀ y ∈ regdataLoads fpEnabled, 4 ∣ y.1 ∧ y.1 < 2 ^ 32 ∧
          (if fpEnabled then 20 else 12) ≤ y.1 ∧ y.1 + y.2 ≤ (if fpEnabled then 332 else 68) := by
        cases fpEnabled <;> decide
      exact hall _ hmem
    obtain ⟨hdvd, hlt, hlow, hhigh⟩ := hload
    refine ⟨(dvd_toNat_add (k := 2) (by decide) base).mpr (Nat.dvd_add hbase hdvd), ?_⟩
    rw [Lib.Block.inData_add hlt, hstart, htarget]
    exact ⟨hlow, hhigh⟩

/-- **In ARM mode the data is self-contained**, at every address of a word. -/
theorem selfContainedA32 (i : InlineA32) {base : BitVec 32} (hbase : 4 ∣ base.toNat) (s : CpuA32) :
    i.SelfContained base s := by
  cases i with
  | memblock data => exact selfContained_memblockA32 data base s
  | regdata fpEnabled fp words => exact selfContained_regdataA32 fpEnabled fp words hbase s

end Risu.Gen.Arm
