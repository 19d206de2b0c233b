import Risu.Gen.Ppc.Emit

/-!
# Load patterns (`ppc64.risu`, `gen_one_insn`)

The patterns of loads with a memory block, and the code that is written for one of them: the setup of
the base register, the load, and the cleanup of the base register.

* `usable`, `usableWrapped`, `regsWrapped` — registers as bits;
* `reg`, `regPlusImm`, `regPlusReg` — the functions that memory blocks call;
* `LoadPattern` — constraint and memory block, and what the load does;
* `loadD` and so on — the patterns, by families; `LoadName` — their names;
* `cleanup`, `execute` — the code around the load, and its execution up to the next comparison;
* `usable_iff`, `getLsbD_regsWrapped`, `getLsbD_regsFrom` — the registers that a mask stands for.
-/

namespace Risu.Gen.Ppc

open Lib

/-! ### Registers as bits -/

/-- `1<<(31-$reg)` -/
def regBit (r : Reg) : BitVec 64 := 1#64 <<< (31 - r.toNat)

/-- Register 1 holds the address of the memory block. -/
def unusableRegs : BitVec 64 := regBit 1#5

def usable (rs : List Reg) : Bool := (rs.foldl (fun regs r => regs ||| regBit r) 0) &&& unusableRegs == 0

def usableWrapped (regs : BitVec 64) : Bool := regs &&& unusableRegs == 0

/-- The registers that a string of `nb` bytes is loaded to, from `rt` on and around. -/
def regsWrapped (rt : Reg) (nb : ℕ) : BitVec 64 :=
  let nr := (nb + 3) / 4
  let regs := shr (shl (BitVec.allOnes 64) (64 - nr)) rt.toNat
  (regs >>> 32) ||| (regs &&& 0xffffffff#64)

/-! ### Memory blocks -/

/-- The variable fields of a load pattern; a target that is no general register counts as `rt`. -/
structure Fields where
  rt : Reg
  ra : Reg
  rb : Reg
  imm : ℕ

/-- What `irand` returns for a load. -/
structure LoadDraws where
  offset : Fin (2048 - 512 + 1)
  nb : Fin (0x7f + 1)
  cmp : Fin (0xff + 1)

/-- What a memory block leaves: the words written, the base register (`none` for `-1`) and
`makezero`. -/
structure Setup where
  words : List Word
  base : Option Reg
  makezero : BitVec 64

/-- `get_offset`, after `align(16)`. -/
def getOffset (d : LoadDraws) : ℤ :=
  ((BitVec.ofNat 64 ((d.offset : ℕ) + 256) &&& ~~~(16#64 - 1#64)).toNat : ℤ)

/-- The base register, unless the load writes over it. -/
def baseUnless (base : Reg) (trashed : List Reg) : Option Reg :=
  if base ∈ trashed then none else some base

def reg (d : LoadDraws) (base : Reg) (trashed : List Reg) (makezero : BitVec 64) : Setup where
  words := writeAddRi base 1#5 (getOffset d)
  base := baseUnless base trashed
  makezero := makezero

def regPlusReg (ra rb : Reg) (trashed : List Reg) (makezero : BitVec 64) : Setup :=
  if ra ≠ 0#5 then
    ⟨writeAddRi ra 1#5 0 ++ writeMovRi rb 32, baseUnless ra trashed, makezero⟩
  else ⟨writeAddRi rb 1#5 32, baseUnless rb trashed, makezero⟩

def regPlusImm (base : Reg) (imm : ℤ) (trashed : List Reg) (makezero : BitVec 64) : Setup :=
  if imm < 0 then ⟨[], some base, makezero⟩
  else ⟨writeAddRi base 1#5 (-imm), baseUnless base trashed, makezero⟩

/-! ### Loads -/

/-- How a load forms its address. -/
inductive AddrForm where
  /-- `(RA|0)` and a displacement: the field `imm` and as many zero bits. -/
  | imm (zeros : ℕ)
  /-- `(RA|0) + (RB)` -/
  | reg
  /-- `(RA|0)` -/
  | base

/-- What a load writes. -/
inductive Target where
  /-- `RT`, from some bytes: with sign or without, byte-reversed or not. -/
  | gpr (size : ℕ) (algebraic reversed : Bool)
  /-- `RTp` and the register behind it. -/
  | quad
  /-- `RT` up to register 31. -/
  | multiple
  /-- A string, with the number of bytes in the field `rb`. -/
  | stringImm
  /-- A string, with the number of bytes in the fixed-point exception register; no bytes leave the
  registers alone. -/
  | stringXer
  /-- A string up to a byte that matches. -/
  | stringCompare
  /-- Floating-point or vector registers; the latter are no part of the state. -/
  | other

structure LoadPattern where
  constraint : Fields → LoadDraws → Bool
  memory : Fields → LoadDraws → Setup
  addr : AddrForm
  target : Target
  update : Bool

/-- What the code runs on: the byte order, and whether loads of several registers leave those of
their address alone where the architecture does not say. -/
structure Host where
  order : Order
  keepsBase : Bool

def AddrForm.ea (a : AddrForm) (f : Fields) (s : Cpu 64) : BitVec 64 :=
  match a with
  | imm zeros => s.base f.ra + (BitVec.ofNat 16 (f.imm <<< zeros)).signExtend 64
  | reg => s.base f.ra + s.gpr f.rb
  | base => s.base f.ra

/-- The register that gets the bytes of a string from `4 * j` on: these bytes, then zeros. -/
def stringWord (bytes : List Byte) (j : ℕ) : BitVec 64 :=
  BitVec.ofNat 64 (valueOf .big ((bytes.drop (4 * j)).take 4 ++
    List.replicate (4 - ((bytes.drop (4 * j)).take 4).length) 0))

/-- The same bytes in a register that keeps the others. -/
def insertBytes (bytes : List Byte) (j : ℕ) (old : BitVec 64) : BitVec 64 :=
  let chunk := (bytes.drop (4 * j)).take 4
  let mask := BitVec.ofNat 64 (valueOf .big (chunk.map (fun _ => 0xff#8) ++
    List.replicate (4 - chunk.length) 0))
  (old &&& ~~~mask) ||| stringWord bytes j

/-- The bytes of a string up to the first one that matches. -/
def upToMatch (cmp : Byte) : List Byte → List Byte
  | [] => []
  | c :: cs => if c = cmp then [c] else c :: upToMatch cmp cs

/-- The number of a register among those that a string is loaded to. -/
def stringIndex (rt r : Reg) : ℕ := (r - rt).toNat

def words (bytes : ℕ) : ℕ := (bytes + 3) / 4

/-- The general registers after a load from an address. -/
def Target.gprs (t : Target) (h : Host) (f : Fields) (ea : BitVec 64) (s : Cpu 64) : Reg → BitVec 64 :=
  match t with
  | gpr size algebraic reversed =>
    let v := valueOf (if reversed then h.order.flip else h.order) (load s.mem ea size)
    Function.update s.gpr f.rt
      (if algebraic then (BitVec.ofNat (8 * size) v).signExtend 64 else BitVec.ofNat 64 v)
  | quad =>
    let v := BitVec.ofNat 128 (valueOf h.order (load s.mem ea 16))
    Function.update (Function.update s.gpr f.rt (v.extractLsb' 64 64)) (f.rt + 1) (v.extractLsb' 0 64)
  | multiple => fun r =>
    if f.rt ≤ r ∧ ¬(h.keepsBase ∧ r = f.ra) then
      BitVec.ofNat 64 (valueOf h.order (load s.mem (ea + BitVec.ofNat 64 (4 * stringIndex f.rt r)) 4))
    else s.gpr r
  | stringImm => fun r =>
    let nb := if f.rb = 0 then 32 else f.rb.toNat
    if stringIndex f.rt r < words nb ∧ ¬(h.keepsBase ∧ r = f.ra) then
      stringWord (load s.mem ea nb) (stringIndex f.rt r)
    else s.gpr r
  | stringXer => fun r =>
    let nb := (s.xer.extractLsb' 0 7).toNat
    if stringIndex f.rt r < words nb ∧ ¬(h.keepsBase ∧ (r = f.ra ∧ f.ra ≠ 0 ∨ r = f.rb)) then
      stringWord (load s.mem ea nb) (stringIndex f.rt r)
    else s.gpr r
  | stringCompare => fun r =>
    let bytes := upToMatch (s.xer.extractLsb' 8 8) (load s.mem ea (s.xer.extractLsb' 0 7).toNat)
    -- the registers of the address are never loaded
    if stringIndex f.rt r < words bytes.length ∧ ¬(r = f.ra ∧ f.ra ≠ 0 ∨ r = f.rb) then
      insertBytes bytes (stringIndex f.rt r) (s.gpr r)
    else s.gpr r
  | other => s.gpr

/-- The fixed-point exception register after a load: the number of bytes that were compared. -/
def Target.xer (t : Target) (ea : BitVec 64) (s : Cpu 64) : BitVec 64 :=
  match t with
  | stringCompare =>
    let bytes := upToMatch (s.xer.extractLsb' 8 8) (load s.mem ea (s.xer.extractLsb' 0 7).toNat)
    (s.xer &&& ~~~ones 64 7) ||| BitVec.ofNat 64 bytes.length
  | _ => s.xer

/-- What a load leaves in the registers that nothing below reads. -/
structure Rest where
  fpr : Reg → BitVec 64
  cr : BitVec 32

def LoadPattern.exec (p : LoadPattern) (h : Host) (f : Fields) (rest : Rest) (s : Cpu 64) : Cpu 64 :=
  let ea := p.addr.ea f s
  let gprs := p.target.gprs h f ea s
  ({ s with
    gpr := if p.update then Function.update gprs f.ra ea else gprs
    fpr := rest.fpr
    cr := rest.cr
    xer := p.target.xer ea s } : Cpu 64).next

/-! ### Patterns -/

section families

variable (bound zeros : ℕ) (target : Target) (update : Bool)

/-- `RT, D(RA)` -/
def loadD : LoadPattern where
  constraint f _ := usable [f.rt, f.ra] && f.ra != 0 && f.ra != f.rt && f.imm ≤ bound
  memory f _ := regPlusImm f.ra (f.imm <<< zeros : ℕ) [] 0
  addr := .imm zeros
  target := target
  update := update

/-- `RT, RA, RB` -/
def loadX : LoadPattern where
  constraint f _ := usable [f.rt, f.ra, f.rb] && f.ra != f.rt && f.ra != f.rb && f.rt != f.rb
  memory f _ := regPlusReg f.ra f.rb [] 0
  addr := .reg
  target := target
  update := false

def loadUX : LoadPattern where
  constraint f _ :=
    usable [f.rt, f.rb, f.ra] && f.ra != 0 && f.ra != f.rt && f.ra != f.rb && f.rt != f.rb
  memory f _ := regPlusReg f.ra f.rb [] 0
  addr := .reg
  target := target
  update := true

/-- Loads to other registers have no constraint on the target, but for pairs. -/
def otherD (pair : Bool) : LoadPattern where
  constraint f _ :=
    (!pair || f.rt.toNat % 2 == 0) && usable [f.ra] && f.ra != 0 && f.imm ≤ bound
  memory f _ := regPlusImm f.ra (f.imm <<< zeros : ℕ) [] 0
  addr := .imm zeros
  target := .other
  update := update

def otherX (pair : Bool) : LoadPattern where
  constraint f _ := (!pair || f.rt.toNat % 2 == 0) && usable [f.ra, f.rb] && f.ra != f.rb
  memory f _ := regPlusReg f.ra f.rb [] 0
  addr := .reg
  target := .other
  update := false

def otherUX : LoadPattern where
  constraint f _ := usable [f.ra, f.rb] && f.ra != 0 && f.ra != f.rb
  memory f _ := regPlusReg f.ra f.rb [] 0
  addr := .reg
  target := .other
  update := true

/-- Vectors with a length: the address is in one register. -/
def otherBase : LoadPattern where
  constraint f _ := usable [f.ra, f.rb] && f.ra != 0 && f.ra != f.rb
  memory f d := reg d f.ra [] 0
  addr := .base
  target := .other
  update := false

end families

/-- Without `$ra != $rt`. -/
def LWA : LoadPattern where
  constraint f _ := usable [f.rt, f.ra] && f.ra != 0 && f.imm ≤ 8176
  memory f _ := regPlusImm f.ra (f.imm <<< 2 : ℕ) [] 0
  addr := .imm 2
  target := .gpr 4 true false
  update := false

def LQ : LoadPattern where
  constraint f _ :=
    f.rt.toNat % 2 == 0 && f.rt != 0 && f.rt != 12 && usable [f.ra] && f.ra != 0 && f.ra != f.rt &&
      f.imm ≤ 2032
  memory f _ := regPlusImm f.ra ((f.imm <<< 4) + 8 : ℕ) [] 0
  addr := .imm 4
  target := .quad
  update := false

/-- The registers from `rt` on. -/
def regsFrom (rt : Reg) : BitVec 64 := shl 1 (32 - rt.toNat) - 1

def LMW : LoadPattern where
  constraint f _ :=
    usableWrapped (regsFrom f.rt) && usable [f.ra] && f.ra != 0 && f.imm ≤ 32752
  memory f _ := regPlusImm f.ra f.imm [] (regsFrom f.rt &&& regBit f.ra)
  addr := .imm 0
  target := .multiple
  update := false

/-- The number of bytes of `LSWI`. -/
def immBytes (rb : Reg) : ℕ := rb.toNat + (if rb ≠ 0 then 0 else 32)

def LSWI : LoadPattern where
  constraint f _ :=
    usable [f.ra] && f.ra != 0 && usableWrapped (regsWrapped f.rt (immBytes f.rb))
  memory f d := reg d f.ra [] (regsWrapped f.rt (immBytes f.rb) &&& regBit f.ra)
  addr := .base
  target := .stringImm
  update := false

/-- The number of bytes to the fixed-point exception register, by way of `ra`. -/
def Setup.afterXer (u : Setup) (ra : Reg) (nb : ℕ) : Setup :=
  { u with words := writeMovRi ra nb ++ mtspr 1#64 ra :: u.words }

def LSWX : LoadPattern where
  constraint f d :=
    usable [f.ra, f.rb] && f.ra != f.rb && usableWrapped (regsWrapped f.rt d.nb)
  memory f d :=
    (regPlusReg f.ra f.rb []
      (if f.ra ≠ 0#5 then regsWrapped f.rt d.nb &&& regBit f.ra
        else regsWrapped f.rt d.nb &&& regBit f.rb)).afterXer f.ra d.nb
  addr := .reg
  target := .stringXer
  update := false

/-- Also for `LSCBXd`. -/
def LSCBX : LoadPattern where
  constraint f d :=
    usable [f.ra, f.rb] && f.ra != f.rb && usableWrapped (regsWrapped f.rt d.nb)
  memory f d := (regPlusReg f.ra f.rb [] 0).afterXer f.ra (d.nb ||| (d.cmp : ℕ) <<< 8 : ℕ)
  addr := .reg
  target := .stringCompare
  update := false

/-- The loads with a memory block. -/
inductive LoadName where
  | LBZ | LBZU | LHA | LHAU | LHZ | LHZU | LWZ | LWZU | LD | LDU
  | LBZX | LDX | LDBRX | LHAX | LHBRX | LHZX | LWAX | LWBRX | LWZX
  | LBZUX | LDUX | LHAUX | LHZUX | LWAUX | LWZUX
  | LFD | LFDU | LFS | LFSU | LFDP | LXSD | LXSSP | LXV
  | LFDX | LFSX | LFIWAX | LFIWZX | LFDPX | LVEBX | LVEHX | LVEWX | LVSL | LVSR | LVX | LVXL
  | LXSDX | LXSIBZX | LXSIHZX | LXSIWAX | LXSIWZX | LXSSPX | LXVB16X | LXVD2X | LXVDSX | LXVH8X
  | LXVW4X | LXVWSX | LXVX
  | LFDUX | LFSUX | LXVL | LXVLL
  | LWA | LQ | LMW | LSWI | LSWX | LSCBX | LSCBXd
  deriving DecidableEq

def LoadName.pattern : LoadName → LoadPattern
  | LBZ => loadD 32752 0 (.gpr 1 false false) false
  | LBZU => loadD 32752 0 (.gpr 1 false false) true
  | LHA => loadD 32752 0 (.gpr 2 true false) false
  | LHAU => loadD 32752 0 (.gpr 2 true false) true
  | LHZ => loadD 32752 0 (.gpr 2 false false) false
  | LHZU => loadD 32752 0 (.gpr 2 false false) true
  | LWZ => loadD 32752 0 (.gpr 4 false false) false
  | LWZU => loadD 32752 0 (.gpr 4 false false) true
  | LD => loadD 8176 2 (.gpr 8 false false) false
  | LDU => loadD 8176 2 (.gpr 8 false false) true
  | LBZX => loadX (.gpr 1 false false)
  | LDX => loadX (.gpr 8 false false)
  | LDBRX => loadX (.gpr 8 false true)
  | LHAX => loadX (.gpr 2 true false)
  | LHBRX => loadX (.gpr 2 false true)
  | LHZX => loadX (.gpr 2 false false)
  | LWAX => loadX (.gpr 4 true false)
  | LWBRX => loadX (.gpr 4 false true)
  | LWZX => loadX (.gpr 4 false false)
  | LBZUX => loadUX (.gpr 1 false false)
  | LDUX => loadUX (.gpr 8 false false)
  | LHAUX => loadUX (.gpr 2 true false)
  | LHZUX => loadUX (.gpr 2 false false)
  | LWAUX => loadUX (.gpr 4 true false)
  | LWZUX => loadUX (.gpr 4 false false)
  | LFD => otherD 32752 0 false false
  | LFDU => otherD 32752 0 true false
  | LFS => otherD 32752 0 false false
  | LFSU => otherD 32752 0 true false
  | LFDP => otherD 8176 2 false true
  | LXSD => otherD 8176 2 false false
  | LXSSP => otherD 8176 2 false false
  | LXV => otherD 2032 4 false false
  | LFDPX => otherX true
  | LFDX | LFSX | LFIWAX | LFIWZX | LVEBX | LVEHX | LVEWX | LVSL | LVSR | LVX | LVXL | LXSDX | LXSIBZX
  | LXSIHZX | LXSIWAX | LXSIWZX | LXSSPX | LXVB16X | LXVD2X | LXVDSX | LXVH8X | LXVW4X | LXVWSX
  | LXVX => otherX false
  | LFDUX | LFSUX => otherUX
  | LXVL | LXVLL => otherBase
  | LWA => Ppc.LWA
  | LQ => Ppc.LQ
  | LMW => Ppc.LMW
  | LSWI => Ppc.LSWI
  | LSWX => Ppc.LSWX
  | LSCBX | LSCBXd => Ppc.LSCBX

/-! ### The code for a load -/

/-- The base register becomes an offset from the memory block again, or zero. -/
def cleanup (u : Setup) : List Word :=
  match u.base with
  | none => []
  | some base => if u.makezero ≠ 0 then writeMovRi base 0 else writeSubfR base 1#5 base

/-- The code that `gen_one_insn` writes, from its first instruction to the comparison behind it. -/
def LoadPattern.execute (p : LoadPattern) (h : Host) (f : Fields) (d : LoadDraws) (rest : Rest)
    (s : Cpu 64) : Option (Cpu 64) :=
  (run h.order (p.memory f d).words s).bind fun s =>
    run h.order (cleanup (p.memory f d)) (p.exec h f rest s)

/-! ### Masks of registers -/

theorem and_regBit_eq_zero {x : BitVec 64} {r : Reg} :
    x &&& regBit r = 0#64 ↔ x.getLsbD (31 - r.toNat) = false := by
  have hbit : regBit r = BitVec.twoPow 64 (31 - r.toNat) := by
    rw [BitVec.twoPow_eq]
    rfl
  rw [hbit, BitVec.and_twoPow]
  cases x.getLsbD (31 - r.toNat) with
  | false => simp
  | true =>
    have hne : BitVec.twoPow 64 (31 - r.toNat) ≠ 0#64 := by
      intro h
      have := congrArg (BitVec.getLsbD · (31 - r.toNat)) h
      simp at this
      omega
    simp [hne]

/-- A mask of registers without the register `r`. -/
theorem not_of_and_regBit {regs : BitVec 64} {r : Reg} {q : Prop} [Decidable q]
    (hregs : regs.getLsbD (31 - r.toNat) = decide q) (h : regs &&& regBit r = 0) : ¬q :=
  of_decide_eq_false (hregs.symm.trans (and_regBit_eq_zero.mp h))

theorem getLsbD_regBit (r r' : Reg) : (regBit r).getLsbD (31 - r'.toNat) = decide (r = r') := by
  have hr := r.isLt
  have hr' := r'.isLt
  rw [regBit, BitVec.getLsbD_shiftLeft, BitVec.getLsbD_one]
  by_cases h : r = r'
  · subst h
    simp
    omega
  · have hne : r.toNat ≠ r'.toNat := fun heq => h (BitVec.eq_of_toNat_eq heq)
    simp [h]
    omega

theorem getLsbD_foldl_regBit (rs : List Reg) (r : Reg) (x : BitVec 64) :
    (rs.foldl (fun regs r => regs ||| regBit r) x).getLsbD (31 - r.toNat) =
      (x.getLsbD (31 - r.toNat) || decide (r ∈ rs)) := by
  induction rs generalizing x with
  | nil => simp
  | cons r' rs ih =>
    rw [List.foldl_cons, ih, BitVec.getLsbD_or, getLsbD_regBit, Bool.or_assoc]
    simp [eq_comm]

theorem usable_iff {rs : List Reg} : usable rs = true ↔ 1#5 ∉ rs := by
  rw [usable, beq_iff_eq, unusableRegs]
  exact and_regBit_eq_zero.trans (by rw [getLsbD_foldl_regBit]; simp)

theorem usableWrapped_iff {regs : BitVec 64} :
    usableWrapped regs = true ↔ regs.getLsbD (31 - (1#5).toNat) = false := by
  rw [usableWrapped, beq_iff_eq, unusableRegs]
  exact and_regBit_eq_zero

theorem stringIndex_eq (rt r : Reg) :
    stringIndex rt r = if rt.toNat ≤ r.toNat then r.toNat - rt.toNat else r.toNat + 32 - rt.toNat := by
  have hr := r.isLt
  have hrt := rt.isLt
  rw [stringIndex, BitVec.toNat_sub]
  split <;> omega

/-- The bits of `regsWrapped` are the registers of the string. -/
theorem getLsbD_regsWrapped {nb : ℕ} (h : nb ≤ 128) (rt r : Reg) :
    (regsWrapped rt nb).getLsbD (31 - r.toNat) = decide (stringIndex rt r < words nb) := by
  have hr := r.isLt
  have hrt := rt.isLt
  have hcount : (64 : ℤ) - (words nb : ℕ) = ((64 - words nb : ℕ) : ℤ) := by
    rw [words]
    omega
  have hregs : regsWrapped rt nb =
      ((BitVec.allOnes 64 <<< (64 - words nb) >>> rt.toNat) >>> 32) |||
        ((BitVec.allOnes 64 <<< (64 - words nb) >>> rt.toNat) &&& ones 64 32) := by
    rw [← shl_natCast, ← shr_natCast, ← hcount]
    rfl
  rw [hregs, stringIndex_eq]
  simp only [BitVec.getLsbD_or, BitVec.getLsbD_and, BitVec.getLsbD_ushiftRight, BitVec.getLsbD_shiftLeft,
    BitVec.getLsbD_allOnes, getLsbD_ones]
  rw [words, Bool.eq_iff_iff]
  simp
  split <;> omega

/-- The bits of `regsFrom` are the registers from `rt` on. -/
theorem getLsbD_regsFrom (rt r : Reg) : (regsFrom rt).getLsbD (31 - r.toNat) = decide (rt ≤ r) := by
  have hr := r.isLt
  have hrt := rt.isLt
  have hcount : (32 : ℤ) - (rt.toNat : ℕ) = ((32 - rt.toNat : ℕ) : ℤ) := by omega
  have hpow : 2 ^ (32 - rt.toNat) ≤ 2 ^ 32 := Nat.pow_le_pow_right (by decide) (by omega)
  have hpos : 0 < 2 ^ (32 - rt.toNat) := Nat.two_pow_pos _
  have hones : regsFrom rt = ones 64 (32 - rt.toNat) := by
    rw [regsFrom, hcount, shl_natCast]
    apply BitVec.eq_of_toNat_eq
    rw [ones, BitVec.toNat_sub, BitVec.toNat_shiftLeft, BitVec.toNat_ofNat, Nat.shiftLeft_eq,
      show (1 : BitVec 64).toNat = 1 from rfl]
    omega
  rw [hones, getLsbD_ones, Bool.eq_iff_iff, decide_eq_true_iff, BitVec.le_def]
  simp
  omega

end Risu.Gen.Ppc
