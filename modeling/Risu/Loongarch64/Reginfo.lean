import Mathlib.Data.Fintype.Pi
import Mathlib.Data.List.FinRange
import Mathlib.Tactic.FinCases
import Risu.Lib.Memory

/-!
# Register records of the loongarch64 port (`risu_reginfo_loongarch64.c`)

The floating-point and vector registers come in one of three contexts behind the signal frame: four,
two or one word for each register.  The record has four words for each register.

* `parseExtcontext` — the chain of contexts;
* `Kind.moves` — the words that `reginfo_init` copies, by the index read and the index written;
* `reginfoInit`, `reginfoIsEq` — the record of a signal frame, and the comparison;
* `captures_iff` — the lanes are captured if and only if the context has four words for each register.
-/

namespace Risu.Loongarch64

open Lib

/-! ### Contexts -/

/-- The contexts of registers. -/
inductive Kind where
  | fpu
  | lsx
  | lasx
  deriving DecidableEq, Repr

/-- `FPU_CTX_MAGIC`, `LSX_CTX_MAGIC` and `LASX_CTX_MAGIC` -/
def Kind.magic : Kind → BitVec 32
  | fpu => 0x46505501#32
  | lsx => 0x53580001#32
  | lasx => 0x41535801#32

/-- The words of a register in a context. -/
def Kind.lanes : Kind → ℕ
  | fpu => 1
  | lsx => 2
  | lasx => 4

/-- `sizeof(struct sctx_info)` -/
def infoSize : ℕ := 16

/-- The size of a context: `regs`, `fcc`, and `fcsr` with its padding. -/
def Kind.size (k : Kind) : ℕ := 8 * (k.lanes * 32) + 16

abbrev Mem := BitVec 64 → Byte

def read32 (m : Mem) (a : BitVec 64) : BitVec 32 := BitVec.ofNat 32 (valueOf .little (load m a 4))

def read64 (m : Mem) (a : BitVec 64) : BitVec 64 := BitVec.ofNat 64 (valueOf .little (load m a 8))

/-- `struct extctx_layout`: where the contexts were found. -/
abbrev ExtctxLayout := Kind → Option (BitVec 64)

/-- The context with this magic number. -/
def kindOf (magic : BitVec 32) : Option Kind :=
  if magic = Kind.fpu.magic then some .fpu
  else if magic = Kind.lsx.magic then some .lsx
  else if magic = Kind.lasx.magic then some .lasx
  else none

/-- The loop of `parse_extcontext`, at most `turns` turns; `none` if the chain does not end. -/
def parseExtcontext (m : Mem) : ℕ → BitVec 64 → ExtctxLayout → Option ExtctxLayout
  | 0, _, _ => none
  | turns + 1, info, extctx =>
    let magic := read32 m info
    let size := read32 m (info + 4)
    match if magic = 0 then none else kindOf magic with
    | none => some extctx
    | some k =>
      if size.toNat < infoSize + k.size then some extctx
      else parseExtcontext m turns (info + size.setWidth 64) (Function.update extctx k (some info))

/-- What `reginfo_init` reads of a signal frame.  The chain of contexts ends. -/
structure Frame where
  regs : Fin 32 → BitVec 64
  pc : BitVec 64
  flags : BitVec 32
  mem : Mem
  /-- `sc_extcontext` -/
  extcontext : BitVec 64
  extctx : ExtctxLayout
  turns : ℕ
  parsed : parseExtcontext mem turns extcontext (fun _ => none) = some extctx

/-- The context that `reginfo_init` uses. -/
def Frame.kind (u : Frame) : Option Kind :=
  if (u.extctx .lasx).isSome then some .lasx
  else if (u.extctx .lsx).isSome then some .lsx
  else if (u.extctx .fpu).isSome then some .fpu
  else none

/-- `regs[k]` of the context at an address. -/
def ctxReg (m : Mem) (info : BitVec 64) (k : ℕ) : BitVec 64 :=
  read64 m (info + BitVec.ofNat 64 infoSize + BitVec.ofNat 64 (8 * k))

/-! ### Records -/

structure Reginfo where
  regs : Fin 32 → BitVec 64
  pc : BitVec 64
  fcc : BitVec 64
  flags : BitVec 32
  fcsr : BitVec 32
  faultingInsn : BitVec 32
  vregs : Fin 128 → BitVec 64
  vl : BitVec 64
  deriving DecidableEq

/-- The index of word `j` of register `i`. -/
def lane (i : Fin 32) (j : Fin 4) : Fin 128 := ⟨4 * i + j, by omega⟩

/-- The assignments to `vregs`: the index written, and the index read. -/
def Kind.moves (k : Kind) : List (Fin 128 × ℕ) :=
  (List.finRange 32).flatMap fun i =>
    match k with
    | lasx => [(lane i 0, 4 * i), (lane i 1, 4 * i + 1), (lane i 2, 4 * i + 2), (lane i 3, 4 * i + 3)]
    | lsx => [(lane i 0, 4 * i + 1), (lane i 1, 4 * i + 1)]
    | fpu => [(lane i 0, 4 * i)]

/-- `vl` -/
def Kind.bits (k : Kind) : BitVec 64 := BitVec.ofNat 64 (64 * k.lanes)

/-- The record with the registers of a context. -/
def Reginfo.addContext (ri : Reginfo) (m : Mem) (k : Kind) (info : BitVec 64) : Reginfo :=
  { ri with
    vregs := scatter (ctxReg m info) k.moves ri.vregs
    fcc := ctxReg m info (k.lanes * 32)
    fcsr := read32 m (info + BitVec.ofNat 64 infoSize + BitVec.ofNat 64 (8 * (k.lanes * 32 + 1)))
    vl := k.bits }

/-- `reginfo_init`, in an image at the given address. -/
def reginfoInit (imageStartAddress : BitVec 64) (u : Frame) : Reginfo :=
  let ri : Reginfo :=
    { regs := fun i => if i.val = 0 then 0 else if i.val = 2 then 0xdeadbeefdeadbeef#64 else u.regs i
      pc := u.pc - imageStartAddress
      fcc := 0
      flags := u.flags
      fcsr := 0
      faultingInsn := read32 u.mem u.pc
      vregs := fun _ => 0
      vl := 0 }
  match u.kind with
  | none => ri
  | some k => ri.addContext u.mem k ((u.extctx k).getD 0)

/-- `reginfo_is_eq`: all bytes are equal; those of the padding are zero. -/
def reginfoIsEq (r1 r2 : Reginfo) : Bool := decide (r1 = r2)

/-! ### Lanes -/

/-- Word `j` of register `i` in the context of a frame. -/
def Frame.lane (u : Frame) (k : Kind) (i : Fin 32) (j : ℕ) : BitVec 64 :=
  ctxReg u.mem ((u.extctx k).getD 0) (k.lanes * i + j)

/-- No lane of the context is lost. -/
structure Captures (start : BitVec 64) (u : Frame) (k : Kind) : Prop where
  lanes : ∀ (i : Fin 32) (j : Fin 4), j < k.lanes →
    (reginfoInit start u).vregs (Loongarch64.lane i j) = u.lane k i j
  reads : ∀ m ∈ k.moves, m.2 < k.lanes * 32
  distinguishes : ∀ (start' : BitVec 64) (u' : Frame), u'.kind = some k →
    (∃ (i : Fin 32) (j : Fin 4), j < k.lanes ∧ u.lane k i j ≠ u'.lane k i j) →
    reginfoIsEq (reginfoInit start u) (reginfoInit start' u') = false

theorem vregs_reginfoInit {u : Frame} {k : Kind} (h : u.kind = some k) (start : BitVec 64) :
    (reginfoInit start u).vregs =
      scatter (ctxReg u.mem ((u.extctx k).getD 0)) k.moves fun _ => 0 := by
  rw [reginfoInit, h]
  rfl

theorem nodup_moves (k : Kind) : (k.moves.map Prod.fst).Nodup := by
  cases k <;> decide +kernel

theorem lasx_moves (i : Fin 32) (j : Fin 4) : (lane i j, 4 * (i : ℕ) + j) ∈ Kind.lasx.moves := by
  rw [Kind.moves, List.mem_flatMap]
  refine ⟨i, List.mem_finRange i, ?_⟩
  fin_cases j <;> simp

/-- With four words for each register, every lane has its place. -/
theorem vregs_lasx {u : Frame} (h : u.kind = some .lasx) (start : BitVec 64) (i : Fin 32) (j : Fin 4) :
    (reginfoInit start u).vregs (lane i j) = u.lane .lasx i j := by
  rw [vregs_reginfoInit h, scatter_of_mem (nodup_moves .lasx) (lasx_moves i j)]
  rfl

/-- The other contexts are read past their end. -/
theorem reads_past_end {k : Kind} (h : k ≠ .lasx) : ∃ m ∈ k.moves, k.lanes * 32 ≤ m.2 := by
  cases k with
  | fpu => exact ⟨(lane 31 0, 124), by decide +kernel, by decide⟩
  | lsx => exact ⟨(lane 31 0, 125), by decide +kernel, by decide⟩
  | lasx => exact absurd rfl h

/-- **The lanes are captured if and only if the context has four words for each register.** -/
theorem captures_iff {u : Frame} {k : Kind} (h : u.kind = some k) (start : BitVec 64) :
    Captures start u k ↔ k = .lasx := by
  constructor
  · intro hcap
    by_contra hk
    obtain ⟨m, hm, hpast⟩ := reads_past_end hk
    exact absurd (hcap.reads m hm) (not_lt.mpr hpast)
  · rintro rfl
    constructor
    · exact fun i j _ => vregs_lasx h start i j
    · decide +kernel
    · rintro start' u' h' ⟨i, j, -, hne⟩
      rw [reginfoIsEq, decide_eq_false_iff_not]
      intro heq
      have hlane := congrArg (fun r : Reginfo => r.vregs (lane i j)) heq
      rw [vregs_lasx h, vregs_lasx h'] at hlane
      exact hne hlane

/-- A frame with one context, of zeros. -/
def oneContext (k : Kind) : Frame where
  regs := fun _ => 0
  pc := 0
  flags := 0
  mem := fun a => (leBytes 4 k.magic.toNat ++ leBytes 4 (infoSize + k.size)).getD (a - 4096).toNat 0
  extcontext := 4096
  extctx := Function.update (fun _ => none) k (some 4096)
  turns := 2
  parsed := by cases k <;> rfl

theorem captures_oneContext :
    (oneContext .lasx).kind = some .lasx ∧ Captures 0 (oneContext .lasx) .lasx :=
  ⟨rfl, (captures_iff (k := .lasx) rfl 0).mpr rfl⟩

/-- **The LSX context is read past its end.** -/
theorem not_captures_lsx : ¬∀ (start : BitVec 64) (u : Frame) (k : Kind), u.kind = some k →
    Captures start u k := by
  intro h
  obtain ⟨m, hm, hpast⟩ := @reads_past_end .lsx (by decide)
  exact absurd ((h 0 (oneContext .lsx) .lsx rfl).reads m hm) (not_lt.mpr hpast)

end Risu.Loongarch64
