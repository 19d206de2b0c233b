import Risu.Gen.Constants
import Risu.Gen.Random
import Risu.Lib.Image
import Risu.Lib.Memory

/-!
# Inline data on LoongArch (`risugen_loongarch64.pm`)

The memory block and the initial values of the floating-point registers are data between the
instructions, and are found relative to the program counter.

* `memblockSetup`, `fpdata` — the code that is written;
* `Op`, `cpu` — the instructions that it is made of, as the manual has them;
* `KeepsBlock`, `KeepsData` — the block and the accesses are in the data;
* `never_keeps` — they are not, at any address.
-/

namespace Risu.Gen.LoongArch

open Lib

/-! ### Code -/

abbrev Word := BitVec 32

def writePcAdr (rd imm : BitVec 64) : Word := insn32 (0x18000000#64 ||| (imm <<< 5) ||| rd)

def writeAnd (rd rj rk : BitVec 64) : Word :=
  insn32 (0x148000#64 ||| (rk <<< 10) ||| (rj <<< 5) ||| rd)

def writeSubRrr (rd rj rk : BitVec 64) : Word :=
  insn32 (0x00118000#64 ||| (rk <<< 10) ||| (rj <<< 5) ||| rd)

def writeAlignReg (rd : BitVec 64) (align : ℕ) : Option (List Word) := do
  let mov ← writeMovRi 1 (align - 1)
  return mov ++ [writeSubRrr 1 0 1, writeAnd rd rd 1]

def writeJumpFwd (len : BitVec 64) : Word :=
  let offs := len / 4 + 1
  insn32 (0x50000000#64 ||| ((offs &&& 0xffff#64) <<< 10) ||| (offs >>> 16))

def writeRisuop (op : BitVec 64) : Word := insn32 (0x000001f0#64 ||| op)

/-- `$MAXALIGN` -/
def maxAlign : ℕ := 64

/-- `write_memblock_setup`; the data is what `irand` returns. -/
def memblockSetup (data : Fin ((8192 + maxAlign) / 4) → Word) : Option Lib.Block := do
  let align ← writeAlignReg 4 maxAlign
  return {
    setup := writePcAdr 4 (4 * 4 + (BitVec.ofNat 64 maxAlign - 1)) :: (align ++ [writeRisuop 2])
    jump := writeJumpFwd (BitVec.ofNat 64 (8192 + maxAlign))
    data := wordBytes (List.ofFn data)
    rest := [] }

def writeLdD (rd rj off : BitVec 64) : Word :=
  insn32 (0x28c00000#64 ||| (off <<< 10) ||| (rj <<< 5) ||| rd)

def writeStD (rd rj off : BitVec 64) : Word :=
  insn32 (0x29c00000#64 ||| (off <<< 10) ||| (rj <<< 5) ||| rd)

def writeFldD (fd rj off : BitVec 64) : Word :=
  insn32 (0x2b800000#64 ||| (off <<< 10) ||| (rj <<< 5) ||| fd)

/-- The copy from `r5` to `r4`, and the loads from there. -/
def fpdataCopies : List Word :=
  ((List.range 32).flatMap fun i =>
    let off := BitVec.ofNat 64 (16 * i)
    [writeLdD 6 5 off, writeStD 6 4 off, writeLdD 6 5 (off + 8), writeStD 6 4 (off + 8)]) ++
  (List.range 32).map fun i => writeFldD (BitVec.ofNat 64 i) 4 (BitVec.ofNat 64 (16 * i))

/-- `write_random_loongarch64_fpdata` -/
def fpdata (pad : Fin 4 → Word) (values : Fin 32 → FpDraws) : Option Lib.Block := do
  let align ← writeAlignReg 4 16
  return {
    setup := writePcAdr 5 (4 * 4 + 16) :: writePcAdr 4 (3 * 4 + (16 - 1)) :: align
    jump := writeJumpFwd (32 * 16 + 16)
    data := wordBytes (List.ofFn pad ++ (List.ofFn values).flatMap (writeRandomFpregVar .quad))
    rest := fpdataCopies }

/-! ### Instructions -/

inductive Op where
  | move (i : Insn)
  | pcaddi (rd : BitVec 5) (si20 : BitVec 20)
  | subd (rd rj rk : BitVec 5)
  | and (rd rj rk : BitVec 5)
  | b (offs : BitVec 26)
  | ldd (rd rj : BitVec 5) (si12 : BitVec 12)
  | std (rd rj : BitVec 5) (si12 : BitVec 12)
  | fldd (fd rj : BitVec 5) (si12 : BitVec 12)
  /-- The words that `risu` catches. -/
  | risuop (op : BitVec 4)

def decodeOp (w : Word) : Option Op :=
  let rd := w.extractLsb' 0 5
  let rj := w.extractLsb' 5 5
  let rk := w.extractLsb' 10 5
  let si12 := w.extractLsb' 10 12
  match decode w with
  | some i => some (.move i)
  | none =>
    if w.extractLsb' 25 7 = 0x0c then some (.pcaddi rd (w.extractLsb' 5 20))
    else if w.extractLsb' 15 17 = 0x23 then some (.subd rd rj rk)
    else if w.extractLsb' 15 17 = 0x29 then some (.and rd rj rk)
    else if w.extractLsb' 26 6 = 0x14 then some (.b (w.extractLsb' 0 10 ++ w.extractLsb' 10 16))
    else if w.extractLsb' 22 10 = 0x0a3 then some (.ldd rd rj si12)
    else if w.extractLsb' 22 10 = 0x0a7 then some (.std rd rj si12)
    else if w.extractLsb' 22 10 = 0x0ae then some (.fldd rd rj si12)
    else if w.extractLsb' 4 28 = 0x1f then some (.risuop (w.extractLsb' 0 4))
    else none

/-- A processor in `risu`; `accesses` are the addresses of the doublewords accessed so far. -/
structure Cpu where
  pc : BitVec 64
  regs : Regs
  fpr : BitVec 5 → BitVec 64
  mem : BitVec 64 → Byte
  memblock : BitVec 64
  accesses : List (BitVec 64)

namespace Cpu

def next (s : Cpu) : Cpu := { s with pc := s.pc + BitVec.ofNat 64 4 }

def write (s : Cpu) (rd : BitVec 5) (v : BitVec 64) : Cpu := { s with regs := set s.regs rd v }

/-- The address of a load or store, which is added to the accesses. -/
def address (s : Cpu) (rj : BitVec 5) (si12 : BitVec 12) : BitVec 64 :=
  get s.regs rj + si12.signExtend 64

def access (s : Cpu) (a : BitVec 64) : Cpu := { s with accesses := s.accesses ++ [a] }

def loadDouble (s : Cpu) (a : BitVec 64) : BitVec 64 := BitVec.ofNat 64 (leValue (load s.mem a 8))

def storeDouble (s : Cpu) (a v : BitVec 64) : Cpu := { s with mem := store s.mem a (leBytes 8 v.toNat) }

end Cpu

def Op.exec (s : Cpu) : Op → Cpu
  | move i => { s.next with regs := LoongArch.exec s.regs i }
  | pcaddi rd si20 => s.next.write rd (s.pc + (si20 ++ 0#2).signExtend 64)
  | subd rd rj rk => s.next.write rd (get s.regs rj - get s.regs rk)
  | and rd rj rk => s.next.write rd (get s.regs rj &&& get s.regs rk)
  | b offs => { s with pc := s.pc + (offs ++ 0#2).signExtend 64 }
  | ldd rd rj si12 => (s.next.access (s.address rj si12)).write rd (s.loadDouble (s.address rj si12))
  | std rd rj si12 => (s.next.access (s.address rj si12)).storeDouble (s.address rj si12) (get s.regs rd)
  | fldd fd rj si12 =>
    { s.next.access (s.address rj si12) with
      fpr := Function.update s.fpr fd (s.loadDouble (s.address rj si12)) }
  -- `OP_SETMEMBLOCK` and `OP_GETMEMBLOCK`; the others leave the registers
  | risuop op =>
    if op = 2 then { s.next with memblock := get s.regs 4 }
    else if op = 3 then s.next.write 4 (get s.regs 4 + s.memblock)
    else s.next

/-- The processor.  The instructions are those that were written: what is stored does not change
them. -/
def cpu : Machine 64 Cpu := opMachine Cpu.pc decodeOp Op.exec

/-! ### Addresses -/

/-- The processor at the start of a block. -/
def Cpu.start (s : Cpu) (base : BitVec 64) : Cpu := { s with pc := base, accesses := [] }

/-- The block is in the data: `r4` and the 8192 bytes from it on. -/
def KeepsBlock (data : Fin ((8192 + maxAlign) / 4) → Word) (base : BitVec 64) (s : Cpu) : Prop :=
  ∃ B t, memblockSetup data = some B ∧ B.Ends cpu base (s.start base) t ∧
    B.InData base (get t.regs 4) 8192

/-- All accesses are in the data. -/
def KeepsData (pad : Fin 4 → Word) (values : Fin 32 → FpDraws) (base : BitVec 64) (s : Cpu) : Prop :=
  ∃ B t, fpdata pad values = some B ∧ B.Ends cpu base (s.start base) t ∧
    ∀ a ∈ t.accesses, B.InData base a 8

/-- The instructions that go on behind themselves. -/
def Op.flows : Op → Bool
  | b _ => false
  | _ => true

theorem pc_exec {i : Op} (h : i.flows = true) (s : Cpu) : (i.exec s).pc = s.pc + BitVec.ofNat 64 4 := by
  cases i with
  | b offs => cases h
  | risuop op =>
    rw [Op.exec]
    split_ifs <;> rfl
  | _ => rfl

/-- A block runs through its instructions if its jump is as long as its data. -/
theorem ends_of_ops {B : Lib.Block} {ops restOps : List Op} {offs : BitVec 26}
    (hsetup : B.setup.map decodeOp = ops.map some) (hflow : ∀ i ∈ ops, i.flows = true)
    (hjump : decodeOp B.jump = some (.b offs))
    (hoffs : (offs ++ 0#2).signExtend 64 = BitVec.ofNat 64 (4 + B.data.length))
    (hrest : B.rest.map decodeOp = restOps.map some) (hflow' : ∀ i ∈ restOps, i.flows = true)
    (hlen : B.image.length ≤ 2 ^ 64) (base : BitVec 64) (s : Cpu) :
    B.Ends cpu base (s.start base)
      (restOps.foldl Op.exec ((Op.b offs).exec (ops.foldl Op.exec (s.start base)))) := by
  have hland (s : Cpu) : ((Op.b offs).exec s).pc = s.pc + BitVec.ofNat 64 (4 + B.data.length) :=
    congrArg (s.pc + ·) hoffs
  exact (Lib.Block.runs_of_ops hsetup (fun i hi => pc_exec (hflow i hi)) hjump hland hrest
    (fun i hi => pc_exec (hflow' i hi)) hlen (s := s.start base) rfl).ends

/-- The address behind the program counter, cut off at an alignment. -/
def adrOps (k : BitVec 20) (mask : BitVec 12) : List Op :=
  [.pcaddi 4 k, .move (.lu12iw 1 0), .move (.ori 1 1 mask), .subd 1 0 1, .and 4 4 1]

theorem get_adrOps (k : BitVec 20) (mask : BitVec 12) (s : Cpu) :
    get ((adrOps k mask).foldl Op.exec s).regs 4 =
      (s.pc + (k ++ 0#2).signExtend 64) &&& (0#64 - (0#64 ||| mask.setWidth 64)) :=
  rfl

/-- The memory block and its setup, in words. -/
def memblockCode (data : List Word) : Lib.Block where
  setup := [0x180009e4#32, 0x14000001#32, 0x0380fc21#32, 0x00118401#32, 0x00148484#32, 0x000001f2#32]
  jump := 0x50204400#32
  data := wordBytes data
  rest := []

theorem memblockSetup_eq (data : Fin ((8192 + maxAlign) / 4) → Word) :
    memblockSetup data = some (memblockCode (List.ofFn data)) := by
  have halign : writeAlignReg 4 maxAlign =
      some [0x14000001#32, 0x0380fc21#32, 0x00118401#32, 0x00148484#32] := rfl
  have hadr : writePcAdr 4 (4 * 4 + (BitVec.ofNat 64 maxAlign - 1)) = 0x180009e4#32 := by decide
  have hjump : writeJumpFwd (BitVec.ofNat 64 (8192 + maxAlign)) = 0x50204400#32 := by decide
  rw [memblockSetup, halign, hadr, hjump]
  rfl

/-- The initial values of the floating-point registers and their setup, in words. -/
def fpdataCode (data : List Word) : Lib.Block where
  setup := [0x18000405#32, 0x18000364#32, 0x14000001#32, 0x03803c21#32, 0x00118401#32, 0x00148484#32]
  jump := 0x50021400#32
  data := wordBytes data
  rest := fpdataCopies

theorem fpdata_eq (pad : Fin 4 → Word) (values : Fin 32 → FpDraws) :
    fpdata pad values =
      some (fpdataCode (List.ofFn pad ++ (List.ofFn values).flatMap (writeRandomFpregVar .quad))) := by
  have halign : writeAlignReg 4 16 =
      some [0x14000001#32, 0x03803c21#32, 0x00118401#32, 0x00148484#32] := rfl
  have hadr : writePcAdr 5 (4 * 4 + 16) = 0x18000405#32 := by decide
  have hadr' : writePcAdr 4 (3 * 4 + (16 - 1)) = 0x18000364#32 := by decide
  have hjump : writeJumpFwd (32 * 16 + 16) = 0x50021400#32 := by decide
  rw [fpdata, halign, hadr, hadr', hjump]
  rfl

theorem length_fpdata (pad : Fin 4 → Word) (values : Fin 32 → FpDraws) :
    (List.ofFn pad ++ (List.ofFn values).flatMap (writeRandomFpregVar .quad)).length = 132 := by
  rw [List.length_append, length_flatMap_const (length_writeRandomFpregVar .quad), List.length_ofFn,
    List.length_ofFn]
  rfl

/-! ### The memory block -/

theorem target_memblockCode {data : List Word} (hdata : data.length = 2064) :
    (memblockCode data).target = 8284 ∧ (memblockCode data).image.length = 8284 := by
  have hlen : (memblockCode data).data.length = 8256 := by
    rw [memblockCode, length_wordBytes, hdata]
  have hstart : (memblockCode data).start = 28 := rfl
  have hrest : (memblockCode data).rest.length = 0 := rfl
  rw [Lib.Block.length_image, Lib.Block.target, hlen, hstart, hrest]
  exact ⟨rfl, rfl⟩

/-- Where `write_memblock_setup` puts the block. -/
theorem ends_memblockCode {data : List Word} (hdata : data.length = 2064) (base : BitVec 64) (s : Cpu) :
    ∃ t, (memblockCode data).Ends cpu base (s.start base) t ∧
      get t.regs 4 = (base + BitVec.ofNat 64 316) &&& BitVec.ofInt 64 (-63) := by
  have hlen : (memblockCode data).data.length = 8256 := by
    rw [memblockCode, length_wordBytes, hdata]
  have himage := (target_memblockCode hdata).2
  have hsetup : (memblockCode data).setup.map decodeOp = (adrOps 79#20 63#12 ++ [Op.risuop 2]).map some := rfl
  have hjump : decodeOp (memblockCode data).jump = some (.b 2065) := by
    show decodeOp 0x50204400#32 = _
    rfl
  have hrest : (memblockCode data).rest.map decodeOp = ([] : List Op).map some := rfl
  refine ⟨_, ends_of_ops hsetup (by decide) hjump (by rw [hlen]; decide) hrest (by decide)
    (by rw [himage]; decide) base s, ?_⟩
  have hadr : (79#20 ++ 0#2).signExtend 64 = BitVec.ofNat 64 316 := by decide
  have hmask : 0#64 - (0#64 ||| (63#12).setWidth 64) = BitVec.ofInt 64 (-63) := by decide
  have hr4 := get_adrOps 79#20 63#12 (s.start base)
  rw [hadr, hmask] at hr4
  rw [List.foldl_nil, List.foldl_append]
  exact hr4

/-- The block ends behind the data. -/
theorem not_inData_memblockCode {data : List Word} (hdata : data.length = 2064) {base : BitVec 64}
    {s t : Cpu} (ht : (memblockCode data).Ends cpu base (s.start base) t) :
    ¬(memblockCode data).InData base (get t.regs 4) 8192 := by
  intro hin
  obtain ⟨t', ht', hr4⟩ := ends_memblockCode hdata base s
  obtain ⟨htarget, himage⟩ := target_memblockCode hdata
  rw [Lib.Block.Ends.unique (by rw [himage]; decide) ht ht', hr4] at hin
  obtain ⟨d, hd, hoff⟩ := @toNat_cut_sub 64 base (BitVec.ofInt 64 (-63)) 316 62 (by decide) (by decide)
    (by decide)
  have hend := hin.2
  rw [hoff, htarget] at hend
  omega

theorem not_keepsBlock (data : Fin ((8192 + maxAlign) / 4) → Word) (base : BitVec 64) (s : Cpu) :
    ¬KeepsBlock data base s := by
  rintro ⟨B, t, hB, ht, hin⟩
  rw [memblockSetup_eq, Option.some.injEq] at hB
  rw [← hB] at ht hin
  exact not_inData_memblockCode (by rw [List.length_ofFn]; decide) ht hin

/-! ### The floating-point registers -/

/-- The copy from `r5` to `r4`, and the loads from there. -/
def copyOps : List Op :=
  ((List.range 32).flatMap fun i =>
    [.ldd 6 5 (BitVec.ofNat 12 (16 * i)), .std 6 4 (BitVec.ofNat 12 (16 * i)),
      .ldd 6 5 (BitVec.ofNat 12 (16 * i + 8)), .std 6 4 (BitVec.ofNat 12 (16 * i + 8))]) ++
  (List.range 32).map fun i => .fldd (BitVec.ofNat 5 i) 4 (BitVec.ofNat 12 (16 * i))

theorem decode_fpdataCopies : fpdataCopies.map decodeOp = copyOps.map some := by
  rfl

/-- Accesses that leave `r5`. -/
def Op.copies : Op → Bool
  | ldd rd _ _ => rd ≠ 5
  | std _ _ _ => true
  | fldd _ _ _ => true
  | _ => false

theorem accesses_subset {i : Op} (h : i.copies = true) (s : Cpu) : s.accesses ⊆ (i.exec s).accesses := by
  cases i <;> first | exact List.subset_append_left _ _ | cases h

theorem get_copies {i : Op} (h : i.copies = true) (s : Cpu) :
    get (i.exec s).regs 5 = get s.regs 5 := by
  cases i with
  | ldd rd rj si12 =>
    have hrd : (5 : BitVec 5) ≠ rd := by
      have := of_decide_eq_true h
      exact fun heq => this heq.symm
    show get (set s.regs rd _) 5 = get s.regs 5
    rw [get, get, if_neg (by decide), if_neg (by decide), set]
    split_ifs
    · rfl
    · exact Function.update_of_ne hrd _ _
  | std rd rj si12 => rfl
  | fldd fd rj si12 => rfl
  | _ => cases h

/-- The addresses that are accessed through `r5`. -/
theorem mem_accesses {ops : List Op} (h : ∀ i ∈ ops, i.copies = true) {rd : BitVec 5}
    {si12 : BitVec 12} (hmem : .ldd rd 5 si12 ∈ ops) (s : Cpu) :
    s.address 5 si12 ∈ (ops.foldl Op.exec s).accesses := by
  have hkeep (ops : List Op) (h : ∀ i ∈ ops, i.copies = true) (s : Cpu) :
      s.accesses ⊆ (ops.foldl Op.exec s).accesses := by
    induction ops generalizing s with
    | nil => exact List.Subset.refl _
    | cons i ops ih =>
      exact List.Subset.trans (accesses_subset (h i List.mem_cons_self) s)
        (ih (fun j hj => h j (List.mem_cons_of_mem i hj)) (i.exec s))
  induction ops generalizing s with
  | nil => cases hmem
  | cons i ops ih =>
    have hops : ∀ j ∈ ops, j.copies = true := fun j hj => h j (List.mem_cons_of_mem i hj)
    rcases List.mem_cons.mp hmem with rfl | hmem
    · exact hkeep ops hops _ (List.mem_append_right _ List.mem_cons_self)
    · have haddr : (i.exec s).address 5 si12 = s.address 5 si12 := by
        rw [Cpu.address, Cpu.address, get_copies (h i List.mem_cons_self)]
      rw [List.foldl_cons, ← haddr]
      exact ih hops hmem (i.exec s)

theorem target_fpdataCode {data : List Word} (hdata : data.length = 132) :
    (fpdataCode data).target = 556 ∧ (fpdataCode data).image.length = 1196 := by
  have hlen : (fpdataCode data).data.length = 528 := by
    rw [fpdataCode, length_wordBytes, hdata]
  have hstart : (fpdataCode data).start = 28 := rfl
  have hrest : (fpdataCode data).rest.length = 160 := rfl
  rw [Lib.Block.length_image, Lib.Block.target, hlen, hstart, hrest]
  exact ⟨rfl, rfl⟩

/-- The run of `write_random_loongarch64_fpdata` has an access that starts 552 bytes behind it. -/
theorem ends_fpdataCode {data : List Word} (hdata : data.length = 132) (base : BitVec 64) (s : Cpu) :
    ∃ t, (fpdataCode data).Ends cpu base (s.start base) t ∧
      base + BitVec.ofNat 64 552 ∈ t.accesses := by
  have hlen : (fpdataCode data).data.length = 528 := by
    rw [fpdataCode, length_wordBytes, hdata]
  have himage := (target_fpdataCode hdata).2
  have hsetup : (fpdataCode data).setup.map decodeOp =
      [Op.pcaddi 5 32, .pcaddi 4 27, .move (.lu12iw 1 0), .move (.ori 1 1 15), .subd 1 0 1,
        .and 4 4 1].map some := rfl
  have hjump : decodeOp (fpdataCode data).jump = some (.b 133) := by
    show decodeOp 0x50021400#32 = _
    rfl
  refine ⟨_, ends_of_ops hsetup (by decide) hjump (by rw [hlen]; decide) decode_fpdataCopies
    (by decide +kernel) (by rw [himage]; decide) base s, ?_⟩
  have hmem : Op.ldd 6 5 (BitVec.ofNat 12 (16 * 26 + 8)) ∈ copyOps :=
    List.mem_append_left _ (List.mem_flatMap.mpr ⟨26, List.mem_range.mpr (by decide),
      List.mem_cons_of_mem _ (List.mem_cons_of_mem _ List.mem_cons_self)⟩)
  have hadr : (32#20 ++ 0#2).signExtend 64 + (BitVec.ofNat 12 (16 * 26 + 8)).signExtend 64 =
      BitVec.ofNat 64 552 := by decide
  rw [← hadr, ← BitVec.add_assoc]
  exact mem_accesses (by decide +kernel) hmem _

theorem not_keepsData (pad : Fin 4 → Word) (values : Fin 32 → FpDraws) (base : BitVec 64) (s : Cpu) :
    ¬KeepsData pad values base s := by
  rintro ⟨B, t, hB, ht, hin⟩
  rw [fpdata_eq, Option.some.injEq] at hB
  rw [← hB] at ht hin
  have hdata := length_fpdata pad values
  obtain ⟨t', ht', hmem⟩ := ends_fpdataCode hdata base s
  obtain ⟨htarget, himage⟩ := target_fpdataCode hdata
  rw [Lib.Block.Ends.unique (by rw [himage]; decide) ht ht'] at hin
  have hend := (hin _ hmem).2
  rw [htarget, BitVec.add_comm, BitVec.add_sub_cancel] at hend
  exact absurd hend (by decide)

/-- **The data is never self-contained.**  `pcaddi` counts in words, and the code in bytes. -/
theorem never_keeps (data : Fin ((8192 + maxAlign) / 4) → Word) (pad : Fin 4 → Word)
    (values : Fin 32 → FpDraws) (base : BitVec 64) (s : Cpu) :
    ¬KeepsBlock data base s ∧ ¬KeepsData pad values base s :=
  ⟨not_keepsBlock data base s, not_keepsData pad values base s⟩

def Cpu.zero : Cpu := ⟨0, fun _ => 0, fun _ => 0, fun _ => 0, 0, []⟩

/-- **At address 0x10000**, with zeros for random values. -/
theorem not_keeps_at_0x10000 :
    ¬(KeepsBlock (fun _ => 0) 0x10000#64 Cpu.zero ∧
      KeepsData (fun _ => 0) (fun _ => FpDraws.zero) 0x10000#64 Cpu.zero) :=
  fun h => not_keepsBlock _ _ _ h.1

end Risu.Gen.LoongArch
