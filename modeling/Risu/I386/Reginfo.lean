import Mathlib.Data.Fintype.Pi
import Risu.Lib.ByteOrder

/-!
# Register records of the i386 port (`risu_reginfo_i386.c`)

The file is built for i386 and for x86_64.  Vector and mask registers are the bytes they have in
memory.

* `Build` — the two builds and the layouts of their signal frames;
* `xsaveFeatureBuf` — where a component of the XSAVE area is, by CPUID;
* `reginfoInit`, `reginfoIsEq` — the record of a signal frame, and the comparison.
-/

namespace Risu.I386

open Lib

/-! ### Builds -/

inductive Build where
  | i386
  | x86_64
  deriving DecidableEq, Repr

namespace Build

/-- `NGREG` -/
def ngreg : Build → ℕ
  | i386 => 19
  | x86_64 => 23

/-- The bits of a general register. -/
def width : Build → ℕ
  | i386 => 32
  | x86_64 => 64

/-- The registers in `vregs`. -/
def vregs : Build → ℕ
  | i386 => 8
  | x86_64 => 32

/-- `nvecregs` -/
def nvecregs : Build → ℕ
  | i386 => 8
  | x86_64 => 16

end Build

/-- The general registers that are recorded. -/
inductive Greg where
  | ax | bx | cx | dx | di | si | bp | sp | ip | efl
  | r8 | r9 | r10 | r11 | r12 | r13 | r14 | r15
  deriving DecidableEq, Repr

/-- The register at an index of `gregs` (`REG_RAX` or `REG_EAX` and so on), if it is recorded. -/
def Build.greg : Build → ℕ → Option Greg
  | x86_64, 0 => some .r8
  | x86_64, 1 => some .r9
  | x86_64, 2 => some .r10
  | x86_64, 3 => some .r11
  | x86_64, 4 => some .r12
  | x86_64, 5 => some .r13
  | x86_64, 6 => some .r14
  | x86_64, 7 => some .r15
  | x86_64, 8 => some .di
  | x86_64, 9 => some .si
  | x86_64, 10 => some .bp
  | x86_64, 11 => some .bx
  | x86_64, 12 => some .dx
  | x86_64, 13 => some .ax
  | x86_64, 14 => some .cx
  | x86_64, 15 => some .sp
  | x86_64, 16 => some .ip
  | x86_64, 17 => some .efl
  | i386, 4 => some .di
  | i386, 5 => some .si
  | i386, 6 => some .bp
  | i386, 7 => some .sp
  | i386, 8 => some .bx
  | i386, 9 => some .dx
  | i386, 10 => some .cx
  | i386, 11 => some .ax
  | i386, 14 => some .ip
  | i386, 16 => some .efl
  | _, _ => none

/-! ### Features -/

/-- The components of the extended state that are recorded. -/
inductive Component where
  | avx
  | opmask
  | zmmHi256
  | hi16Zmm
  deriving DecidableEq, Repr

/-- The number of the component. -/
def Component.number : Component → ℕ
  | avx => 2
  | opmask => 5
  | zmmHi256 => 6
  | hi16Zmm => 7

/-- `XFEAT_AVX` and so on: a mask with the bit of the component. -/
def Component.xfeat (c : Component) : BitVec 64 := 1#64 <<< c.number

/-- `features & XFEAT_...` -/
def has (features : BitVec 64) (c : Component) : Bool := features &&& c.xfeat != 0

/-! ### Signal frames -/

/-- The floating-point state of a signal frame: its bytes, from its address on. -/
abbrev Fpstate := ℕ → Byte

def read (fp : Fpstate) (offset len : ℕ) : ℕ :=
  valueOf .little ((List.range len).map fun i => fp (offset + i))

/-- `mxcsr` in `struct _fpstate` -/
def Build.mxcsrOffset : Build → ℕ
  | i386 => 136
  | x86_64 => 24

/-- `xmm_space` or `_xmm` -/
def Build.xmmOffset : Build → ℕ
  | i386 => 272
  | x86_64 => 160

/-- `sw_reserved` -/
def Build.swOffset : Build → ℕ
  | i386 => 576
  | x86_64 => 464

/-- `xstate_hdr` in `struct _xstate` -/
def Build.hdrOffset : Build → ℕ
  | i386 => 624
  | x86_64 => 512

/-- `FP_XSTATE_MAGIC1` -/
def fpXstateMagic1 : ℕ := 0x46505853

variable {b : Build}

/-- `magic == X86_FXSR_MAGIC`: the state is more than that of the 80387. -/
def isFxsr (b : Build) (fp : Fpstate) : Bool :=
  match b with
  | .i386 => read fp 110 2 == 0
  | .x86_64 => true

/-- `sw_reserved.magic1 == FP_XSTATE_MAGIC1` -/
def isXsave (b : Build) (fp : Fpstate) : Bool := read fp b.swOffset 4 == fpXstateMagic1

def extendedSize (b : Build) (fp : Fpstate) : BitVec 32 := BitVec.ofNat 32 (read fp (b.swOffset + 4) 4)

/-- `xstate_hdr.xfeatures` -/
def hdrXfeatures (b : Build) (fp : Fpstate) : BitVec 64 := BitVec.ofNat 64 (read fp b.hdrOffset 8)

/-- What `reginfo_init` reads of a signal frame; `insn` is the word at the instruction pointer. -/
structure Context (b : Build) where
  gregs : Fin b.ngreg → BitVec b.width
  insn : BitVec 32
  fpregs : Option Fpstate

/-- What the program is given: `image_start_address`, `xfeatures` and the registers `eax` and `ebx` of
CPUID leaf `0xd` by sub-leaf. -/
structure Env (b : Build) where
  imageStartAddress : BitVec b.width
  xfeatures : BitVec 64
  cpuid : BitVec 32 → BitVec 32 × BitVec 32

/-! ### Records -/

structure Reginfo (b : Build) where
  faultingInsn : BitVec 32
  mxcsr : BitVec 32
  xfeatures : BitVec 64
  gregs : Fin b.ngreg → BitVec b.width
  vregs : Fin b.vregs → Fin 64 → Byte
  kregs : Fin 8 → Fin 8 → Byte
  deriving DecidableEq

/-- The offset of a feature in the XSAVE area; `none` if an assertion fails. -/
def xsaveFeatureBuf (e : Env b) (fp : Fpstate) (feature : BitVec 32) : Option ℕ :=
  let (eax, ebx) := e.cpuid feature
  if eax + ebx ≤ extendedSize b fp then some ebx.toNat else none

/-- `memcpy` of `len` bytes into each of `count` vector registers from `first` on, at byte `pos`. -/
def copyVregs (fp : Fpstate) (buf first count pos len : ℕ) (vregs : Fin b.vregs → Fin 64 → Byte) :
    Fin b.vregs → Fin 64 → Byte :=
  fun i t =>
    if first ≤ i ∧ i < first + count ∧ pos ≤ t ∧ t < pos + len then
      fp (buf + len * (i - first) + (t - pos))
    else vregs i t

/-- `features`: what is both requested and present. -/
def features (e : Env b) (fp : Fpstate) : BitVec 64 := e.xfeatures &&& hdrXfeatures b fp

/-- The copy of a component that is requested and present. -/
def Reginfo.addComponent (e : Env b) (fp : Fpstate) (c : Component) (ri : Reginfo b) :
    Option (Reginfo b) :=
  if has (features e fp) c then
    (xsaveFeatureBuf e fp (c.xfeat.setWidth 32)).map fun buf =>
      match c with
      | .avx => { ri with vregs := copyVregs fp buf 0 b.nvecregs 16 16 ri.vregs }
      | .opmask => { ri with kregs := fun i t => fp (buf + 8 * i + t) }
      | .zmmHi256 => { ri with vregs := copyVregs fp buf 0 b.nvecregs 32 32 ri.vregs }
      | .hi16Zmm => { ri with vregs := copyVregs fp buf 16 16 0 64 ri.vregs }
  else some ri

/-- The copies of components, in order. -/
def Reginfo.addComponents (e : Env b) (fp : Fpstate) (cs : List Component) (ri : Reginfo b) :
    Option (Reginfo b) :=
  cs.foldlM (fun (ri : Reginfo b) c => ri.addComponent e fp c) ri

/-- The components that a build copies. -/
def Build.components : Build → List Component
  | i386 => [.avx, .opmask, .zmmHi256]
  | x86_64 => [.avx, .opmask, .zmmHi256, .hi16Zmm]

/-- What is recorded of a general register. -/
def recordGreg (e : Env b) (i : ℕ) (v : BitVec b.width) : BitVec b.width :=
  match b.greg i with
  | none => 0
  | some .ip => v - e.imageStartAddress
  -- only the bits SF, ZF, AF, PF and CF
  | some .efl => v &&& BitVec.ofNat _ 0xd5
  | some .sp => BitVec.ofNat _ 0xdeadbeef
  | some _ => v

/-- `reginfo_init`; `none` if an assertion fails. -/
def reginfoInit (e : Env b) (u : Context b) : Option (Reginfo b) :=
  let ri : Reginfo b :=
    { faultingInsn := u.insn
      mxcsr := 0
      xfeatures := e.xfeatures
      gregs := fun i => recordGreg e i (u.gregs i)
      vregs := fun _ _ => 0
      kregs := fun _ _ => 0 }
  match u.fpregs with
  | none => some ri
  | some fp =>
    if isFxsr b fp then
      let ri :=
        { ri with
          mxcsr := BitVec.ofNat 32 (read fp b.mxcsrOffset 4)
          vregs := copyVregs fp b.xmmOffset 0 b.nvecregs 0 16 ri.vregs }
      if isXsave b fp then ri.addComponents e fp b.components
      else some ri
    else some ri

/-- `reginfo_is_eq`: all bytes are equal. -/
def reginfoIsEq (m a : Reginfo b) : Bool := decide (m = a)

end Risu.I386
