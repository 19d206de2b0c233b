import Risu.Byteswap
import Risu.Lib.Process

/-!
# The interface between `risu.c` and a port (`risu.h`)

* `RisuOp`, `RisuResult` — the two enumerations of `risu.h`;
* `Arch` — the functions a port provides, together with what `risu.c` relies on: the object
  representation of a `struct reginfo` determines it, its size is constant, and converting to the
  architecture's byte order and back is the identity.  Two ports provide more than that and are left
  out: the size of a record varies on aarch64, and `reginfo_init` clears flags in its context on arm;
* `Header` — `trace_header_t`, its object representation and the byte-order conversions of
  `risu.c`;
* `Event` — a signal as a handler receives it: the signal number, the context, and the memory the
  process sees at that moment.
-/

namespace Risu

open Lib

/-- Ops code under test can request; `sigill` is any other illegal instruction. -/
inductive RisuOp where
  | sigill
  | compare
  | testend
  | setmemblock
  | getmemblock
  | comparemem
  | setupbegin
  | setupend
  deriving DecidableEq, Repr

/-- The value of the enumerator. -/
def RisuOp.code : RisuOp → BitVec 32
  | .sigill => -1
  | .compare => 0
  | .testend => 1
  | .setmemblock => 2
  | .getmemblock => 3
  | .comparemem => 4
  | .setupbegin => 5
  | .setupend => 6

/-- The enumerator with the given value, if there is one. -/
def RisuOp.ofCode (c : BitVec 32) : Option RisuOp :=
  if c = -1 then some .sigill
  else if c = 0 then some .compare
  else if c = 1 then some .testend
  else if c = 2 then some .setmemblock
  else if c = 3 then some .getmemblock
  else if c = 4 then some .comparemem
  else if c = 5 then some .setupbegin
  else if c = 6 then some .setupend
  else none

@[simp] theorem RisuOp.ofCode_code (op : RisuOp) : RisuOp.ofCode op.code = some op := by
  cases op <;> rfl

theorem RisuOp.ofCode_eq_some {c : BitVec 32} {op : RisuOp} :
    RisuOp.ofCode c = some op ↔ c = op.code := by
  refine ⟨?_, fun h => by rw [h, RisuOp.ofCode_code]⟩
  intro h
  rw [RisuOp.ofCode] at h
  split_ifs at h with h₁ h₂ h₃ h₄ h₅ h₆ h₇ h₈ <;> cases h <;> assumption

theorem RisuOp.code_injective {op op' : RisuOp} (h : op.code = op'.code) : op = op' := by
  have := congrArg RisuOp.ofCode h
  simpa using this

/-- The ops whose record carries a `struct reginfo`. -/
def RisuOp.isRegister : RisuOp → Bool
  | .compare | .testend | .sigill => true
  | _ => false

/-- Result of an operation.  `other b` is a response byte outside the enumeration. -/
inductive RisuResult where
  | ok
  | resEnd
  | mismatchReg
  | mismatchMem
  | mismatchOp
  | badIo
  | badMagic
  | badSizeHeader
  | badSizeReginfo
  | badSizeMemblock
  | badSizeZero
  | badOp
  | sigbus
  | other (b : Byte)
  deriving DecidableEq, Repr

/-- `(RisuResult)resp` for a response byte. -/
def RisuResult.ofByte (b : Byte) : RisuResult :=
  match b.toNat with
  | 0 => .ok
  | 1 => .resEnd
  | 2 => .mismatchReg
  | 3 => .mismatchMem
  | 4 => .mismatchOp
  | 5 => .badIo
  | 6 => .badMagic
  | 7 => .badSizeHeader
  | 8 => .badSizeReginfo
  | 9 => .badSizeMemblock
  | 10 => .badSizeZero
  | 11 => .badOp
  | 12 => .sigbus
  | _ => .other b

/-- `(unsigned char)resp`. -/
def RisuResult.toByte : RisuResult → Byte
  | .ok => 0
  | .resEnd => 1
  | .mismatchReg => 2
  | .mismatchMem => 3
  | .mismatchOp => 4
  | .badIo => 5
  | .badMagic => 6
  | .badSizeHeader => 7
  | .badSizeReginfo => 8
  | .badSizeMemblock => 9
  | .badSizeZero => 10
  | .badOp => 11
  | .sigbus => 12
  | .other b => b

/-- `MEMBLOCKLEN`. -/
def memblockLen : ℕ := 8192

/-- `RISU_MAGIC`, the characters `RISU`. -/
def risuMagic : BitVec 32 := 0x52495355

/-- The bytes of 32 bits reversed: `BYTESWAP_32` on an operand without sign. -/
def byteswap32 (v : BitVec 32) : BitVec 32 := BitVec.ofNat 32 (swapBytes 4 v.toNat)

/-! ### What a port provides -/

structure Arch where
  /-- `sizeof(arch_ptr_t)` -/
  ptrBytes : ℕ
  /-- The byte order of the host; `__LITTLE_ENDIAN__` is defined when it is little. -/
  order : Order
  /-- `get_arch_big_endian()` -/
  getArchBigEndian : Bool
  endianswap : Endianswap
  /-- What a signal handler finds behind its context pointer and `si_addr`. -/
  Ucontext : Type
  Reginfo : Type
  advancePc : Ucontext → Ucontext
  getUcPc : Ucontext → BitVec (8 * ptrBytes)
  setUcontextParamreg : Ucontext → BitVec (8 * ptrBytes) → Ucontext
  getReginfoParamreg : Reginfo → BitVec (8 * ptrBytes)
  getRisuop : Reginfo → BitVec 32
  /-- One build reads the pc from the emulator, the others from the reginfo. -/
  getPc : Ucontext → Reginfo → BitVec (8 * ptrBytes)
  reginfoInit : Ucontext → Reginfo
  reginfoUpdate : Reginfo → Ucontext → Ucontext
  /-- `reginfo_is_eq(m, a)` at a given `signal_count`: the verdict and `a` as the call leaves it,
  or `none` if an integer division in it traps. -/
  reginfoIsEq : ℕ → Reginfo → Reginfo → Option (Bool × Reginfo)
  reginfoSize : Reginfo → ℕ
  /-- `get_arch_memory`: the pointer for an address, `none` for `NULL`. -/
  getArchMemory : BitVec (8 * ptrBytes) → Option (BitVec (8 * ptrBytes))
  reginfoHostToArch : Reginfo → Reginfo
  reginfoArchToHost : Reginfo → Reginfo
  /-- `sizeof(struct reginfo)` -/
  sizeofReginfo : ℕ
  /-- The object representation of a `struct reginfo`. -/
  reginfoBytes : Reginfo → List Byte
  reginfoOfBytes : List Byte → Reginfo
  ptrBytes_eq : ptrBytes = 4 ∨ ptrBytes = 8
  /-- A build that converts records to another byte order has the built-ins. -/
  endianswap_eq : getArchBigEndian ≠ (order == .big) → endianswap = .builtin
  sizeofReginfo_lt : sizeofReginfo < 2 ^ 31
  reginfoBytes_length : ∀ r, (reginfoBytes r).length = sizeofReginfo
  reginfoOfBytes_bytes : ∀ r, reginfoOfBytes (reginfoBytes r) = r
  reginfoSize_eq : ∀ r, reginfoSize r = sizeofReginfo
  archToHost_hostToArch : ∀ r, reginfoArchToHost (reginfoHostToArch r) = r

/-- `arch_ptr_t`. -/
abbrev Arch.Ptr (A : Arch) := BitVec (8 * A.ptrBytes)

variable {A : Arch}

/-- Bytes read into a `struct reginfo` overwrite its beginning. -/
def Arch.storeReginfo (A : Arch) (r : A.Reginfo) (got : List Byte) : A.Reginfo :=
  A.reginfoOfBytes (got ++ (A.reginfoBytes r).drop got.length)

/-- A whole object representation replaces whatever was there. -/
theorem Arch.storeReginfo_bytes (A : Arch) (r r' : A.Reginfo) :
    A.storeReginfo r (A.reginfoBytes r') = r' := by
  unfold Arch.storeReginfo
  rw [List.drop_eq_nil_of_le (by rw [A.reginfoBytes_length, A.reginfoBytes_length]),
    List.append_nil, A.reginfoOfBytes_bytes]

/-! ### The record header -/

/-- `trace_header_t`. -/
structure Header (A : Arch) where
  magic : BitVec 32
  size : BitVec 32
  risuOp : BitVec 32
  pc : A.Ptr

/-- The bytes of every field reversed. -/
def reverseHeader (h : Header A) : Header A where
  magic := byteswap32 h.magic
  size := byteswap32 h.size
  risuOp := byteswap32 h.risuOp
  pc := BitVec.ofNat _ (swapBytes A.ptrBytes h.pc.toNat)

/-- `byte_swap_header` with some macros; `risu_op` has a sign. -/
def Byteswap.header (M : Byteswap) (h : Header A) : Header A where
  magic := M.swap32 false h.magic
  size := M.swap32 false h.size
  risuOp := M.swap32 true h.risuOp
  pc := M.reg h.pc

/-- `byte_swap_header`. -/
def byteSwapHeader (h : Header A) : Header A := A.endianswap.macros.header h

/-- The test of `header_host_to_arch`: host and architecture disagree on the byte order. -/
def Arch.swapsHeader (A : Arch) : Bool :=
  match A.order with
  | .little => !(!A.getArchBigEndian)
  | .big => !A.getArchBigEndian

def headerHostToArch (h : Header A) : Header A :=
  if A.swapsHeader then
    if h.magic ≠ A.endianswap.macros.swap32 false risuMagic then byteSwapHeader h else h
  else h

def headerArchToHost (h : Header A) : Header A :=
  if h.magic = A.endianswap.macros.swap32 false risuMagic then byteSwapHeader h else h

/-- All builds reverse the bytes of an operand without sign. -/
theorem Arch.swap32_unsigned (A : Arch) (x : BitVec 32) :
    A.endianswap.macros.swap32 false x = byteswap32 x := by
  cases A.endianswap with
  | builtin => rfl
  | fallback ul hul => exact Byteswap.fallback32_unsigned hul x

theorem Byteswap.header_builtin (h : Header A) : builtin.header h = reverseHeader h := by
  rw [header, reverseHeader, reg_builtin A.ptrBytes_eq]
  rfl

/-- With the built-ins a swap is a reversal. -/
theorem byteSwapHeader_of_builtin (hA : A.endianswap = .builtin) (h : Header A) :
    byteSwapHeader h = reverseHeader h := by
  rw [byteSwapHeader, hA]
  exact Byteswap.header_builtin h

theorem Arch.endianswap_of_swapsHeader (hA : A.swapsHeader = true) : A.endianswap = .builtin := by
  apply A.endianswap_eq
  rw [Arch.swapsHeader] at hA
  cases horder : A.order <;> cases hbig : A.getArchBigEndian <;> simp_all

/-- Bytes between `risu_op` and `pc`, there to align an 8-byte pointer. -/
def Arch.headerPad (A : Arch) : ℕ := A.ptrBytes - 4

/-- `sizeof(trace_header_t)`. -/
def Arch.sizeofHeader (A : Arch) : ℕ := 12 + A.headerPad + A.ptrBytes

def Header.fields (h : Header A) : List (List Byte) :=
  [bytesOf A.order 4 h.magic.toNat, bytesOf A.order 4 h.size.toNat,
    bytesOf A.order 4 h.risuOp.toNat, List.replicate A.headerPad 0,
    bytesOf A.order A.ptrBytes h.pc.toNat]

/-- The object representation of a header. -/
def Header.bytes (h : Header A) : List Byte := h.fields.flatten

def Header.ofBytes (A : Arch) (bs : List Byte) : Header A :=
  let f := [4, 4, 4, A.headerPad, A.ptrBytes].splitLengths bs
  { magic := BitVec.ofNat 32 (valueOf A.order (f.getD 0 []))
    size := BitVec.ofNat 32 (valueOf A.order (f.getD 1 []))
    risuOp := BitVec.ofNat 32 (valueOf A.order (f.getD 2 []))
    pc := BitVec.ofNat _ (valueOf A.order (f.getD 4 [])) }

@[simp] theorem Header.bytes_length (h : Header A) : h.bytes.length = A.sizeofHeader := by
  simp [Header.bytes, Header.fields, Arch.sizeofHeader]
  omega

theorem Header.fields_lengths (h : Header A) :
    h.fields.map List.length = [4, 4, 4, A.headerPad, A.ptrBytes] := by
  simp [Header.fields]

theorem Header.ofBytes_bytes (h : Header A) : Header.ofBytes A h.bytes = h := by
  have hsplit : [4, 4, 4, A.headerPad, A.ptrBytes].splitLengths h.bytes = h.fields := by
    rw [← h.fields_lengths]
    simpa [Header.bytes] using splitLengths_flatten h.fields []
  have h32 : ∀ v : BitVec 32, BitVec.ofNat 32 (valueOf A.order (bytesOf A.order 4 v.toNat)) = v :=
    fun v => ofNat_valueOf_bytesOf A.order 4 v
  unfold Header.ofBytes
  simp only [hsplit]
  simp [Header.fields, h32]

/-- Bytes read into the global header overwrite its beginning. -/
def Header.store (h : Header A) (got : List Byte) : Header A :=
  Header.ofBytes A (got ++ h.bytes.drop got.length)

theorem Header.store_bytes (h h' : Header A) : h.store h'.bytes = h' := by
  unfold Header.store
  rw [List.drop_eq_nil_of_le (by simp), List.append_nil, Header.ofBytes_bytes]

/-! ### Events -/

inductive Signal where
  | sigill
  | sigbus
  deriving DecidableEq, Repr

/-- A signal as the handler receives it. -/
structure Event (A : Arch) where
  sig : Signal
  uc : A.Ucontext
  /-- The byte at a pointer plus an offset. -/
  mem : A.Ptr → ℕ → Byte
  /-- The bytes that lie in memory behind `ri[MASTER]`. -/
  behindRi : ℕ → Byte

/-- The memory block at a pointer. -/
def Event.block (e : Event A) (p : A.Ptr) : List Byte := (List.range memblockLen).map (e.mem p)

@[simp] theorem Event.block_length (e : Event A) (p : A.Ptr) :
    (e.block p).length = memblockLen := by
  simp [Event.block]

/-- The op an event asks for, as `reginfo_init` and `get_risuop` read it. -/
def Event.code (e : Event A) : BitVec 32 := A.getRisuop (A.reginfoInit e.uc)

end Risu
