import Risu.Gen.Arm.InlineA32

/-!
# Inline data in A64

* `OpA64`, `cpuA64` — the instructions that the code is made of, and a processor with vectors of `vl`
  bytes;
* `InlineA64.SelfContained` — what is read is in the data, and the jump leads over the data;
* `foldl_ldp`, `foldl_ldr` — the loads;
* `selfContained_iff` — the data of SVE is the only one that depends on where it is.
-/

namespace Risu.Gen.Arm

open Lib

/-! ### Instructions -/

inductive OpA64 where
  | insn (i : InsnA64)
  | adr (rd : BitVec 5) (imm : BitVec 21)
  /-- `AND` of a mask for 64 bits. -/
  | andi (rd rn : BitVec 5) (immr imms : BitVec 6)
  /-- `ADD` of an immediate that is shifted by 12. -/
  | addi (rd rn : BitVec 5) (imm : BitVec 12)
  | b (offs : BitVec 26)
  /-- `LDP` of quadwords, with writeback behind the load. -/
  | ldp (rn : BitVec 5) (imm : BitVec 7)
  /-- `LDR` of a vector or of a predicate. -/
  | ldr (pred : Bool) (rn : BitVec 5) (imm : BitVec 9)

/-- A word of A64, with the program counter.  Where register 31 is the stack pointer, it is left
out. -/
def decodeOpA64 (w : Word) : Option OpA64 :=
  let op := w.extractLsb' 22 10
  let rd := w.extractLsb' 0 5
  let rn := w.extractLsb' 5 5
  let imm9 := w.extractLsb' 16 6 ++ w.extractLsb' 10 3
  match decodeWordA64 w with
  | some i => some (.insn i)
  | none =>
    if w.extractLsb' 26 6 = 0x05 then some (.b (w.extractLsb' 0 26))
    else if w.extractLsb' 31 1 = 0 ∧ w.extractLsb' 24 5 = 0x10 then
      some (.adr rd (w.extractLsb' 5 19 ++ w.extractLsb' 29 2))
    else if rn = 31 then none
    else if op = 0x2b3 then some (.ldp rn (w.extractLsb' 15 7))
    else if op = 0x216 ∧ w.extractLsb' 13 3 = 2 then some (.ldr false rn imm9)
    else if op = 0x216 ∧ w.extractLsb' 13 3 = 0 ∧ w.extractLsb' 4 1 = 0 then some (.ldr true rn imm9)
    else if rd = 31 then none
    else if op = 0x249 then some (.andi rd rn (w.extractLsb' 16 6) (w.extractLsb' 10 6))
    else if op = 0x245 then some (.addi rd rn (w.extractLsb' 10 12))
    else none

/-- The mask of an immediate for 64 bits. -/
def bitMask (immr imms : BitVec 6) : BitVec 64 :=
  (BitVec.ofNat 64 (2 ^ (imms.toNat + 1) - 1)).rotateRight immr.toNat

/-- A processor in `risu`; `accesses` are the loads so far.  The vectors and the memory are left out:
nothing is loaded into the other registers. -/
structure CpuA64 where
  pc : BitVec 64
  regs : RegsA64
  memblock : BitVec 64
  accesses : List (Access 64)

namespace CpuA64

def next (s : CpuA64) : CpuA64 := { s with pc := s.pc + BitVec.ofNat 64 4 }

def write (s : CpuA64) (rd : BitVec 5) (v : BitVec 64) : CpuA64 := { s with regs := setA64 s.regs rd v }

/-- The processor at the start of a block. -/
def start (s : CpuA64) (base : BitVec 64) : CpuA64 := { s with pc := base, accesses := [] }

end CpuA64

/-- `OP_SETMEMBLOCK` -/
def InsnA64.setsMemblock : InsnA64 → Bool
  | risuop op => op = 2
  | _ => false

/-- The bytes of a vector or of a predicate. -/
def regBytes (vl : ℕ) (pred : Bool) : ℕ := if pred then vl / 8 else vl

def OpA64.exec (vl : ℕ) (s : CpuA64) : OpA64 → CpuA64
  | insn i =>
    { s.next with
      regs := i.exec vl s.memblock s.regs
      memblock := if i.setsMemblock then s.regs 0 else s.memblock }
  | adr rd imm => s.next.write rd (s.pc + imm.signExtend 64)
  | andi rd rn immr imms => s.next.write rd (s.regs rn &&& bitMask immr imms)
  | addi rd rn imm => s.next.write rd (s.regs rn + (imm.setWidth 64 <<< 12))
  | b offs => { s with pc := s.pc + (offs ++ 0#2).signExtend 64 }
  | ldp rn imm =>
    { s.next.write rn (s.regs rn + (imm.signExtend 64 <<< 4)) with
      accesses := s.accesses ++ [⟨s.regs rn, s.regs rn, 32⟩] }
  | ldr pred rn imm =>
    let addr := s.regs rn + BitVec.ofInt 64 (imm.toInt * regBytes vl pred)
    { s.next with accesses := s.accesses ++ [⟨s.regs rn, addr, regBytes vl pred⟩] }

/-- The instructions are those that were written: nothing is stored. -/
def cpuA64 (vl : ℕ) : Machine 64 CpuA64 := opMachine CpuA64.pc decodeOpA64 (OpA64.exec vl)

/-- The instructions that go on behind themselves. -/
def OpA64.flows : OpA64 → Bool
  | b _ => false
  | _ => true

theorem OpA64.pc_exec {vl : ℕ} {i : OpA64} (h : i.flows = true) (s : CpuA64) :
    (i.exec vl s).pc = s.pc + BitVec.ofNat 64 4 := by
  cases i with
  | b offs => cases h
  | _ => rfl

/-! ### What is to hold -/

/-- The code in A64 that has data in it, with what is drawn. -/
inductive InlineA64 where
  | memblock (data : Fin ((8192 + 64) / 4) → Word)
  | fpdata (pad : Fin 4 → Word) (values : Fin 32 → FpDraws)
  | svedata (values : Fin (32 * 16) → FpDraws) (preds : Fin (16 * 16) → BitVec 16)

def InlineA64.isSve : InlineA64 → Prop
  | svedata _ _ => True
  | _ => False

/-- A block that loads registers runs over its data, its base registers are aligned, and what is read is
in the data. -/
def KeepsLoads (vl : ℕ) (base : BitVec 64) (s : CpuA64) (block : Option Lib.Block) : Prop :=
  ∃ B t, block = some B ∧ B.Runs (cpuA64 vl) base (s.start base) t ∧ t.accesses ≠ [] ∧
    ∀ x ∈ t.accesses, x.Fits B base 16

/-- The code runs over its data, its base registers are aligned, and what is read, or the whole memory
block, is in the data. -/
def InlineA64.SelfContained (vl : ℕ) (base : BitVec 64) (s : CpuA64) : InlineA64 → Prop
  | memblock data => ∃ B t, memblockSetup .aarch64 data = some B ∧
      B.Runs (cpuA64 vl) base (s.start base) t ∧ 64 ∣ (t.regs 0).toNat ∧ t.memblock = t.regs 0 ∧
      B.InData base (t.regs 0) 8192
  | fpdata pad values => KeepsLoads vl base s (Arm.fpdata pad values)
  | svedata values preds => KeepsLoads vl base s (Arm.svedata values preds)

/-- A block of A64 runs through its instructions. -/
theorem runs_of_opsA64 {B : Lib.Block} {ops restOps : List OpA64} {offs : BitVec 26}
    (hsetup : B.setup.map decodeOpA64 = ops.map some) (hflow : ∀ i ∈ ops, i.flows = true)
    (hjump : decodeOpA64 B.jump = some (.b offs))
    (hoffs : (offs ++ 0#2).signExtend 64 = BitVec.ofNat 64 (4 + B.data.length))
    (hrest : B.rest.map decodeOpA64 = restOps.map some) (hflow' : ∀ i ∈ restOps, i.flows = true)
    (hlen : B.image.length ≤ 2 ^ 64) (vl : ℕ) (base : BitVec 64) (s : CpuA64) :
    B.Runs (cpuA64 vl) base (s.start base)
      (restOps.foldl (OpA64.exec vl) ((OpA64.b offs).exec vl (ops.foldl (OpA64.exec vl) (s.start base)))) := by
  have hland (s : CpuA64) : ((OpA64.b offs).exec vl s).pc = s.pc + BitVec.ofNat 64 (4 + B.data.length) :=
    congrArg (s.pc + ·) hoffs
  exact Lib.Block.runs_of_ops hsetup (fun i hi => OpA64.pc_exec (hflow i hi)) hjump hland hrest
    (fun i hi => OpA64.pc_exec (hflow' i hi)) hlen (s := s.start base) rfl

/-! ### The memory block -/

/-- The memory block and its setup, in words. -/
def memblockCodeA64 (data : List Word) : Lib.Block where
  setup := [0x70000260#32, 0x927ae400#32, 0x00005af2#32]
  jump := 0x14000811#32
  data := wordBytes data
  rest := []

theorem memblockSetup_aarch64 (data : Fin ((8192 + 64) / 4) → Word) :
    memblockSetup .aarch64 data = some (memblockCodeA64 (List.ofFn data)) := by
  have halign : writeAlignReg .aarch64 0 64 = some 0x927ae400#32 := rfl
  have hadr : writePcAdr .aarch64 0 (4 * 4 + (64 - 1)) = 0x70000260#32 := by decide
  have hjump : writeJumpFwd .aarch64 (8192 + 64) = 0x14000811#32 := by decide
  have hop : risuopWord .aarch64 2 = 0x00005af2#32 := rfl
  rw [memblockSetup, halign, hadr, hjump, memblockCodeA64, hop]
  exact rfl

theorem target_memblockCodeA64 {data : List Word} (hdata : data.length = 2064) :
    (memblockCodeA64 data).target = 8272 ∧ (memblockCodeA64 data).image.length = 8272 := by
  have hlen : (memblockCodeA64 data).data.length = 8256 := by
    rw [memblockCodeA64, length_wordBytes, hdata]
  have hstart : (memblockCodeA64 data).start = 16 := rfl
  have hrest : (memblockCodeA64 data).rest.length = 0 := rfl
  rw [Lib.Block.length_image, Lib.Block.target, hlen, hstart, hrest]
  exact ⟨rfl, rfl⟩

theorem selfContained_memblockA64 (vl : ℕ) (data : Fin ((8192 + 64) / 4) → Word) (base : BitVec 64)
    (s : CpuA64) : (InlineA64.memblock data).SelfContained vl base s := by
  have hdata : (List.ofFn data).length = 2064 := List.length_ofFn
  have hlen : (memblockCodeA64 (List.ofFn data)).data.length = 8256 := by
    rw [memblockCodeA64, length_wordBytes, hdata]
  obtain ⟨htarget, himage⟩ := target_memblockCodeA64 hdata
  have hsetup : (memblockCodeA64 (List.ofFn data)).setup.map decodeOpA64 =
      [OpA64.adr 0 79, .andi 0 0 58 57, .insn (.risuop 2)].map some := rfl
  have hjump : decodeOpA64 (memblockCodeA64 (List.ofFn data)).jump = some (.b 2065) := by
    show decodeOpA64 0x14000811#32 = _
    rfl
  have hrest : (memblockCodeA64 (List.ofFn data)).rest.map decodeOpA64 = ([] : List OpA64).map some := rfl
  have hruns := runs_of_opsA64 hsetup (by decide) hjump (by rw [hlen]; decide) hrest (by decide)
    (by rw [himage]; decide) vl base s
  have hr0 : ∀ t, t = (base + BitVec.ofNat 64 79) &&& ~~~63#64 → 64 ∣ t.toNat ∧
      (memblockCodeA64 (List.ofFn data)).InData base t 8192 := by
    rintro t rfl
    refine ⟨dvd_toNat_and (k := 6) _ _ (by decide), ?_⟩
    obtain ⟨d, hd, hoff⟩ := @toNat_cut_sub 64 base (~~~63#64) 79 63 (by decide) (by decide) (by decide)
    rw [Lib.Block.InData, hoff, htarget]
    exact ⟨show 16 ≤ 79 - d by omega, by omega⟩
  have hmask : bitMask 58 57 = ~~~63#64 := by decide
  have hval : (base + (79#21).signExtend 64) &&& bitMask 58 57 = (base + BitVec.ofNat 64 79) &&& ~~~63#64 := by
    rw [hmask]
    rfl
  obtain ⟨halign, hin⟩ := hr0 _ hval
  exact ⟨_, _, memblockSetup_aarch64 data, hruns, halign, rfl, hin⟩

/-! ### The floating-point registers -/

/-- Loads that go on behind one another. -/
theorem foldl_ldp (vl k : ℕ) (s : CpuA64) :
    (((List.replicate k (OpA64.ldp 0 2)).foldl (OpA64.exec vl) s).regs 0 =
        s.regs 0 + BitVec.ofNat 64 (32 * k)) ∧
      ((List.replicate k (OpA64.ldp 0 2)).foldl (OpA64.exec vl) s).accesses =
        s.accesses ++ (List.range k).map fun i =>
          ⟨s.regs 0 + BitVec.ofNat 64 (32 * i), s.regs 0 + BitVec.ofNat 64 (32 * i), 32⟩ := by
  induction k with
  | zero => simp
  | succ k ih =>
    obtain ⟨hregs, hacc⟩ := ih
    rw [List.replicate_succ', List.foldl_append, List.foldl_cons, List.foldl_nil]
    set t := (List.replicate k (OpA64.ldp 0 2)).foldl (OpA64.exec vl) s
    constructor
    · show t.regs 0 + ((2#7).signExtend 64 <<< 4) = _
      rw [hregs, BitVec.add_assoc, Nat.mul_succ, BitVec.ofNat_add]
      rfl
    · show t.accesses ++ [⟨t.regs 0, t.regs 0, 32⟩] = _
      rw [hregs, hacc, List.range_succ, List.map_append, List.append_assoc]
      rfl

/-- Loads from one base register. -/
theorem foldl_ldr (vl : ℕ) (pred : Bool) {k : ℕ} (hk : k ≤ 256) (s : CpuA64) :
    ((((List.range k).map fun i => OpA64.ldr pred 0 (BitVec.ofNat 9 i)).foldl (OpA64.exec vl) s).regs =
        s.regs) ∧
      (((List.range k).map fun i => OpA64.ldr pred 0 (BitVec.ofNat 9 i)).foldl (OpA64.exec vl) s).accesses =
        s.accesses ++ (List.range k).map fun i =>
          ⟨s.regs 0, s.regs 0 + BitVec.ofNat 64 (i * regBytes vl pred), regBytes vl pred⟩ := by
  induction k with
  | zero => simp
  | succ k ih =>
    obtain ⟨hregs, hacc⟩ := ih (by omega)
    have hnat : (BitVec.ofNat 9 k).toNat = k := by
      rw [BitVec.toNat_ofNat]
      omega
    have hint : (BitVec.ofNat 9 k).toInt = k := by
      rw [BitVec.toInt_eq_toNat_of_lt (by omega), hnat]
    rw [List.range_succ, List.map_append, List.foldl_append, List.map_singleton, List.foldl_cons,
      List.foldl_nil]
    set t := ((List.range k).map fun i => OpA64.ldr pred 0 (BitVec.ofNat 9 i)).foldl (OpA64.exec vl) s
    constructor
    · exact hregs
    · show t.accesses ++ [⟨t.regs 0, t.regs 0 + BitVec.ofInt 64 ((BitVec.ofNat 9 k).toInt * regBytes vl pred),
        regBytes vl pred⟩] = _
      rw [hregs, hacc, hint, List.map_append, List.append_assoc, ← Nat.cast_mul, BitVec.ofInt_natCast]
      rfl

/-- The initial values of the floating-point registers and their setup, in words. -/
def fpdataCode (data : List Word) : Lib.Block where
  setup := [0x700000c0#32, 0x927cec00#32]
  jump := 0x14000085#32
  data := wordBytes data
  rest := (List.range 16).map fun i =>
    let rt := BitVec.ofNat 64 (2 * i)
    insn32 (0xacc10000#64 ||| ((rt + 1) <<< 10) ||| rt)

theorem fpdata_eq (pad : Fin 4 → Word) (values : Fin 32 → FpDraws) :
    fpdata pad values =
      some (fpdataCode (List.ofFn pad ++ (List.ofFn values).flatMap (writeRandomFpregVar .quad))) := by
  have halign : writeAlignReg .aarch64 0 16 = some 0x927cec00#32 := rfl
  have hadr : writePcAdr .aarch64 0 (3 * 4 + (16 - 1)) = 0x700000c0#32 := by decide
  have hjump : writeJumpFwd .aarch64 (32 * 16 + 16) = 0x14000085#32 := by decide
  rw [fpdata, halign, hadr, hjump, fpdataCode]
  exact rfl

theorem length_fpdata (pad : Fin 4 → Word) (values : Fin 32 → FpDraws) :
    (List.ofFn pad ++ (List.ofFn values).flatMap (writeRandomFpregVar .quad)).length = 132 := by
  rw [List.length_append, length_flatMap_const (length_writeRandomFpregVar .quad), List.length_ofFn,
    List.length_ofFn]
  rfl

theorem target_fpdataCode {data : List Word} (hdata : data.length = 132) :
    (fpdataCode data).start = 12 ∧ (fpdataCode data).target = 540 ∧
      (fpdataCode data).image.length = 604 := by
  have hlen : (fpdataCode data).data.length = 528 := by
    rw [fpdataCode, length_wordBytes, hdata]
  have hstart : (fpdataCode data).start = 12 := rfl
  have hrest : (fpdataCode data).rest.length = 16 := rfl
  rw [Lib.Block.length_image, Lib.Block.target, hlen, hstart, hrest]
  exact ⟨rfl, rfl, rfl⟩

theorem selfContained_fpdata (vl : ℕ) (pad : Fin 4 → Word) (values : Fin 32 → FpDraws)
    (base : BitVec 64) (s : CpuA64) : (InlineA64.fpdata pad values).SelfContained vl base s := by
  have hdata := length_fpdata pad values
  set data := List.ofFn pad ++ (List.ofFn values).flatMap (writeRandomFpregVar .quad) with hdef
  have hlen : (fpdataCode data).data.length = 528 := by
    rw [fpdataCode, length_wordBytes, hdata]
  obtain ⟨hstart, htarget, himage⟩ := target_fpdataCode hdata
  have hsetup : (fpdataCode data).setup.map decodeOpA64 =
      [OpA64.adr 0 27, .andi 0 0 60 59].map some := rfl
  have hjump : decodeOpA64 (fpdataCode data).jump = some (.b 133) := by
    show decodeOpA64 0x14000085#32 = _
    rfl
  have hrest : (fpdataCode data).rest.map decodeOpA64 =
      (List.replicate 16 (OpA64.ldp 0 2)).map some := rfl
  have hruns := runs_of_opsA64 hsetup (by decide) hjump (by rw [hlen]; decide) hrest (by decide)
    (by rw [himage]; decide) vl base s
  set s₁ := (OpA64.b 133).exec vl ([OpA64.adr 0 27, .andi 0 0 60 59].foldl (OpA64.exec vl) (s.start base))
    with hs₁
  -- the base register, and the loads from there on
  have hmask : bitMask 60 59 = ~~~15#64 := by decide
  have hr0 : s₁.regs 0 = (base + BitVec.ofNat 64 27) &&& ~~~15#64 := by
    rw [← hmask]
    rfl
  have halign : 2 ^ 4 ∣ (s₁.regs 0).toNat := hr0 ▸ dvd_toNat_and (k := 4) _ _ (by decide)
  obtain ⟨d, hd, hcut⟩ := @cut_eq_add 64 base (~~~15#64) 27 15 (by decide) (by decide) (by decide)
  have hacc := (foldl_ldp vl 16 s₁).2
  have hnone : s₁.accesses = [] := rfl
  rw [hnone, List.nil_append] at hacc
  refine ⟨_, _, fpdata_eq pad values, hruns, ?_, fun x hx => ?_⟩
  · rw [hacc]
    exact List.cons_ne_nil _ _
  · rw [hacc] at hx
    obtain ⟨i, hi, rfl⟩ := List.mem_map.mp hx
    have hlt : i < 16 := List.mem_range.mp hi
    refine ⟨(dvd_toNat_add (k := 4) (by decide) _).mpr (Nat.dvd_add halign ⟨2 * i, by omega⟩), ?_⟩
    rw [hr0, hcut, BitVec.add_assoc, ← BitVec.ofNat_add, Lib.Block.inData_add (by omega), hstart, htarget]
    show 12 ≤ 27 - d + 32 * i ∧ 27 - d + 32 * i + 32 ≤ 540
    omega

/-! ### The vectors and predicates -/

/-- The initial values of vectors and predicates and their setup, in words. -/
def svedataCode (data : List Byte) : Lib.Block where
  setup := [0x10000040#32]
  jump := 0x14000881#32
  data := data
  rest := (List.range 32).map (sveLoad 0x85804000#64) ++
    (0x91400800#32 :: (List.range 16).map (sveLoad 0x85800000#64))

/-- The bytes that are drawn. -/
def svedataBytes (values : Fin (32 * 16) → FpDraws) (preds : Fin (16 * 16) → BitVec 16) : List Byte :=
  wordBytes ((List.ofFn values).flatMap (writeRandomFpregVar .quad)) ++
    (List.ofFn preds).flatMap fun h => leBytes 2 h.toNat

theorem svedata_eq (values : Fin (32 * 16) → FpDraws) (preds : Fin (16 * 16) → BitVec 16) :
    svedata values preds = some (svedataCode (svedataBytes values preds)) := by
  have hadd : writeAddRri .aarch64 0 0 (32 * 16 * 16) = some 0x91400800#32 := by decide
  have hadr : writePcAdr .aarch64 0 (2 * 4) = 0x10000040#32 := by decide
  have hjump : writeJumpFwd .aarch64 (BitVec.ofNat 64 (32 * 16 * 16 + 16 * 16 * 2)) = 0x14000881#32 := by
    decide
  simp only [svedata, hadd, hadr, hjump, svedataCode, svedataBytes]
  exact rfl

theorem length_svedataBytes (values : Fin (32 * 16) → FpDraws) (preds : Fin (16 * 16) → BitVec 16) :
    (svedataBytes values preds).length = 8704 := by
  rw [svedataBytes, List.length_append, length_wordBytes,
    length_flatMap_const (length_writeRandomFpregVar .quad),
    length_flatMap_const (fun h => leBytes_length 2 _), List.length_ofFn, List.length_ofFn]
  rfl

theorem target_svedataCode {data : List Byte} (hdata : data.length = 8704) :
    (svedataCode data).start = 8 ∧ (svedataCode data).target = 8712 ∧
      (svedataCode data).image.length = 8908 := by
  have hlen : (svedataCode data).data.length = 8704 := hdata
  have hstart : (svedataCode data).start = 8 := rfl
  have hrest : (svedataCode data).rest.length = 49 := rfl
  rw [Lib.Block.length_image, Lib.Block.target, hlen, hstart, hrest]
  exact ⟨rfl, rfl, rfl⟩

/-- The loads of `ldr`. -/
def ldrs (pred : Bool) (k : ℕ) : List OpA64 :=
  (List.range k).map fun i => .ldr pred 0 (BitVec.ofNat 9 i)

/-- What the block of SVE reads, from the first byte behind its jump on. -/
def sveAccesses (vl : ℕ) (base : BitVec 64) : List (Access 64) :=
  let a := base + BitVec.ofNat 64 8
  let b := base + BitVec.ofNat 64 8200
  ((List.range 32).map fun i => ⟨a, a + BitVec.ofNat 64 (i * vl), vl⟩) ++
    (List.range 16).map fun i => ⟨b, b + BitVec.ofNat 64 (i * (vl / 8)), vl / 8⟩

/-- The `add` between the loads: it moves the base register behind the vectors. -/
theorem exec_addi (vl : ℕ) (s : CpuA64) :
    (OpA64.exec vl s (.addi 0 0 2)).regs 0 = s.regs 0 + 8192#64 ∧
      (OpA64.exec vl s (.addi 0 0 2)).accesses = s.accesses :=
  ⟨rfl, rfl⟩

/-- The loads behind the jump, from the register that `adr` sets. -/
theorem accesses_sveLoads (vl : ℕ) {base : BitVec 64} {s : CpuA64} (hr0 : s.regs 0 = base + 8#64) :
    ((ldrs false 32 ++ (.addi 0 0 2 :: ldrs true 16)).foldl (OpA64.exec vl) s).accesses =
      s.accesses ++ sveAccesses vl base := by
  obtain ⟨hregs, hacc⟩ := foldl_ldr vl false (show 32 ≤ 256 by decide) s
  obtain ⟨hadd, hsame⟩ := exec_addi vl ((ldrs false 32).foldl (OpA64.exec vl) s)
  obtain ⟨-, hacc'⟩ := foldl_ldr vl true (show 16 ≤ 256 by decide)
    (OpA64.exec vl ((ldrs false 32).foldl (OpA64.exec vl) s) (.addi 0 0 2))
  have hbase : base + 8#64 + 8192#64 = base + 8200#64 := BitVec.add_assoc ..
  rw [← ldrs] at hregs hacc hacc'
  rw [hregs, hr0, hbase] at hadd
  rw [hr0] at hacc
  rw [hadd, hsame, hacc, List.append_assoc] at hacc'
  rw [List.foldl_append, List.foldl_cons, hacc', sveAccesses]
  rfl

theorem runs_svedataCode {data : List Byte} (hdata : data.length = 8704) (vl : ℕ) (base : BitVec 64)
    (s : CpuA64) : ∃ t, (svedataCode data).Runs (cpuA64 vl) base (s.start base) t ∧
      t.accesses = sveAccesses vl base := by
  have himage := (target_svedataCode hdata).2.2
  have hlen : (svedataCode data).data.length = 8704 := hdata
  have hsetup : (svedataCode data).setup.map decodeOpA64 = [OpA64.adr 0 8].map some := rfl
  have hjump : decodeOpA64 (svedataCode data).jump = some (.b 2177) := by
    show decodeOpA64 0x14000881#32 = _
    rfl
  have hrest : (svedataCode data).rest.map decodeOpA64 =
      (ldrs false 32 ++ (.addi 0 0 2 :: ldrs true 16)).map some := rfl
  have hruns := runs_of_opsA64 hsetup (by decide) hjump (by rw [hlen]; decide) hrest (by decide)
    (by rw [himage]; decide) vl base s
  exact ⟨_, hruns, accesses_sveLoads vl rfl⟩

theorem svedata_aligned_iff (base : BitVec 64) : 16 ∣ (base + BitVec.ofNat 64 8).toNat ↔ base.toNat % 16 = 8 := by
  rw [show 16 = 2 ^ 4 from rfl, dvd_toNat_add (by decide)]
  omega

theorem selfContained_svedata_iff {vl : ℕ} (hvl : vl ≤ 256) (values : Fin (32 * 16) → FpDraws)
    (preds : Fin (16 * 16) → BitVec 16) (base : BitVec 64) (s : CpuA64) :
    (InlineA64.svedata values preds).SelfContained vl base s ↔ base.toNat % 16 = 8 := by
  have hdata := length_svedataBytes values preds
  set data := svedataBytes values preds with hdef
  obtain ⟨hstart, htarget, himage⟩ := target_svedataCode hdata
  obtain ⟨t, hruns, hacc⟩ := runs_svedataCode hdata vl base s
  rw [← svedata_aligned_iff]
  constructor
  · rintro ⟨B, t', hB, hruns', -, hfits⟩
    rw [svedata_eq, Option.some.injEq] at hB
    subst hB
    rw [Lib.Block.Ends.unique (by rw [himage]; decide) hruns'.ends hruns.ends, hacc] at hfits
    exact (hfits _ List.mem_cons_self).1
  · intro halign
    refine ⟨_, t, svedata_eq values preds, hruns, ?_, fun x hx => ?_⟩
    · rw [hacc]
      exact List.cons_ne_nil _ _
    · rw [hacc, sveAccesses, List.mem_append, List.mem_map, List.mem_map] at hx
      rcases hx with ⟨i, hi, rfl⟩ | ⟨i, hi, rfl⟩
      · have hlt : i < 32 := List.mem_range.mp hi
        have hbytes : i * vl + vl ≤ 32 * 256 :=
          (Nat.succ_mul i vl).symm.trans_le (Nat.mul_le_mul hlt hvl)
        refine ⟨halign, ?_⟩
        rw [BitVec.add_assoc, ← BitVec.ofNat_add, Lib.Block.inData_add (by omega), hstart, htarget]
        show 8 ≤ 8 + i * vl ∧ 8 + i * vl + vl ≤ 8712
        omega
      · have hlt : i < 16 := List.mem_range.mp hi
        have hle : vl / 8 ≤ 32 := by omega
        have hbytes : i * (vl / 8) + vl / 8 ≤ 16 * 32 :=
          (Nat.succ_mul i (vl / 8)).symm.trans_le (Nat.mul_le_mul hlt hle)
        have halign' : 2 ^ 4 ∣ (base + BitVec.ofNat 64 8200).toNat := by
          have h8 := (dvd_toNat_add (k := 4) (by decide) base).mp halign
          exact (dvd_toNat_add (by decide) base).mpr (by omega)
        refine ⟨halign', ?_⟩
        rw [BitVec.add_assoc, ← BitVec.ofNat_add, Lib.Block.inData_add (by omega), hstart, htarget]
        show 8 ≤ 8200 + i * (vl / 8) ∧ 8200 + i * (vl / 8) + vl / 8 ≤ 8712
        omega

/-! ### All of them -/

/-- **The data is self-contained** in ARM mode and in A64 at every address of a word, but for the data
of SVE: its base register is aligned exactly where the block starts 8 bytes behind a multiple of 16. -/
theorem selfContained_iff {vl : ℕ} (hvl : vl ≤ 256) :
    (∀ (i : InlineA32) (base : BitVec 32) (s : CpuA32), 4 ∣ base.toNat → i.SelfContained base s) ∧
      ∀ (i : InlineA64) (base : BitVec 64) (s : CpuA64), 4 ∣ base.toNat →
        (i.SelfContained vl base s ↔ (i.isSve → base.toNat % 16 = 8)) := by
  refine ⟨fun i base s hbase => selfContainedA32 i hbase s, fun i base s _ => ?_⟩
  cases i with
  | memblock data => exact iff_of_true (selfContained_memblockA64 vl data base s) fun h => h.elim
  | fpdata pad values => exact iff_of_true (selfContained_fpdata vl pad values base s) fun h => h.elim
  | svedata values preds =>
    rw [selfContained_svedata_iff hvl]
    exact ⟨fun h _ => h, fun h => h trivial⟩

def CpuA64.zero : CpuA64 := ⟨0, fun _ => 0, 0, []⟩

/-- The data of SVE at address 8, with vectors of 256 bytes. -/
theorem selfContained_iff_at_8 : (InlineA64.svedata (fun _ => ⟨0, false, 0, fun _ => 0⟩)
    (fun _ => 0)).SelfContained 256 8#64 CpuA64.zero :=
  ((selfContained_iff (le_refl 256)).2 _ 8#64 CpuA64.zero (by decide)).mpr fun _ => by decide

/-- **At address 0x10000** the data of SVE starts 8 bytes behind a multiple of 16. -/
theorem not_selfContained_at_0x10000 :
    ¬∀ (vl : ℕ), vl ≤ 256 → ∀ (i : InlineA64) (base : BitVec 64) (s : CpuA64), 4 ∣ base.toNat →
      i.SelfContained vl base s := by
  intro h
  have hsve := h 256 (le_refl 256) (.svedata (fun _ => ⟨0, false, 0, fun _ => 0⟩) fun _ => 0) 0x10000#64
    CpuA64.zero (by decide)
  exact absurd ((selfContained_svedata_iff (le_refl 256) _ _ _ _).mp hsve) (by decide)

end Risu.Gen.Arm
