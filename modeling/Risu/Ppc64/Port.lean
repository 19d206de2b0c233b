import Risu.Ppc64.Compare

/-!
# The ppc64 port (`risu_ppc64.c`, `risu_reginfo_ppc64.c`)

`port b` is the port as a value of `Arch`, for the build `b`: a native build, or the build around the
emulator (`RISU_DPPC`), which runs big-endian code on a host of either order and converts register
records to big-endian.  `struct reginfo` is laid out as in `risu_reginfo_ppc64.h`, without vector
registers.

* `Ucontext` — the machine context: registers, with the pc at `risuNip`, and the words of the image;
* `reginfoInit`, `reginfoUpdate`, `reginfoSwap`;
* `Reginfo.fields`, `reginfoOfBytes` — the object representation.
-/

namespace Risu.Ppc64

open Lib

structure Ucontext (w : ℕ) where
  gregs : Fin 41 → BitVec w
  fpregs : Fin 32 → BitVec 64
  fpscr : BitVec w
  /-- `*(uint32_t *)` at an address, as the host reads it. -/
  word : BitVec w → BitVec 32

/-- What distinguishes one build and start of the program from another. -/
structure Build where
  ptrBytes : ℕ
  order : Order
  /-- `RISU_DPPC` is defined. -/
  dppc : Bool
  endianswap : Endianswap
  /-- `get_arch_start_address()` -/
  startAddress : BitVec (8 * ptrBytes)
  imageSize : ℕ
  /-- In the emulator, the addresses `find_range` finds. -/
  findRange : BitVec (8 * ptrBytes) → Bool
  options : Options
  ptrBytes_eq : ptrBytes = 4 ∨ ptrBytes = 8
  /-- The emulator is compiled with the built-ins. -/
  endianswap_eq : dppc = true → endianswap = .builtin

namespace Build

variable (b : Build)

/-- The width of `reg_t`. -/
abbrev width : ℕ := 8 * b.ptrBytes

def archToHost32 (v : BitVec 32) : BitVec 32 :=
  if (b.dppc || b.order == .big) == (b.order == .big) then v else byteswap32 v

/-! ### Contexts -/

/-- The instruction at an address, 0 outside the image. -/
def insnAt (uc : Ucontext b.width) (addr : BitVec b.width) : BitVec 32 :=
  let ibegin := b.startAddress
  let iend := b.startAddress + BitVec.ofNat _ b.imageSize
  if ibegin ≤ addr ∧ addr < iend then b.archToHost32 (uc.word addr) else b.archToHost32 0

def reginfoInit (uc : Ucontext b.width) : Reginfo b.width 0 :=
  let pc := uc.gregs risuNip
  { secondPrevInsn := b.insnAt uc (pc - 8)
    prevInsn := b.insnAt uc (pc - 4)
    faultingInsn := b.insnAt uc (pc + 0)
    nextInsn := b.insnAt uc (pc + 4)
    nip := (pc - b.startAddress).setWidth 32
    gregs := uc.gregs
    fpregs := uc.fpregs
    fpscr := uc.fpscr
    vrregs := Fin.elim0 }

/-- The registers `reginfo_update` copies into the context. -/
def updates (j : Fin 41) : Bool :=
  j == risuCcr || j == risuXer || j == risuMq || j.val < 32 && !masked b.options.gregsMask j

def reginfoUpdate (ri : Reginfo b.width 0) (uc : Ucontext b.width) : Ucontext b.width :=
  { uc with
    gregs := fun j => if b.updates j then ri.gregs j else uc.gregs j
    fpregs := ri.fpregs
    fpscr := ri.fpscr }

/-- The emulator treats illegal instructions as normal ones. -/
def advancePc (uc : Ucontext b.width) : Ucontext b.width :=
  if b.dppc then uc
  else { uc with gregs := Function.update uc.gregs risuNip (uc.gregs risuNip + 4) }

def getPc (uc : Ucontext b.width) (ri : Reginfo b.width 0) : BitVec b.width :=
  if b.dppc then uc.gregs risuNip else ri.nip.setWidth b.width

def getArchMemory (p : BitVec b.width) : Option (BitVec b.width) :=
  if b.dppc then if b.findRange p then some p else none
  else if p = 0 then none else some p

/-! ### The object representation of a record -/

/-- `reginfo_swap`. -/
def reginfoSwap (r : Reginfo b.width 0) : Reginfo b.width 0 where
  secondPrevInsn := swapVec 4 r.secondPrevInsn
  prevInsn := swapVec 4 r.prevInsn
  faultingInsn := swapVec 4 r.faultingInsn
  nextInsn := swapVec 4 r.nextInsn
  nip := swapVec 4 r.nip
  gregs := fun j => swapVec b.ptrBytes (r.gregs j)
  fpregs := fun i => swapVec 8 (r.fpregs i)
  fpscr := swapVec b.ptrBytes r.fpscr
  vrregs := r.vrregs

/-- The members of a record in order, each as its bytes; an 8-byte `reg_t` is aligned. -/
def fields (r : Reginfo b.width 0) : List (List Byte) :=
  [bytesOf b.order 4 r.secondPrevInsn.toNat, bytesOf b.order 4 r.prevInsn.toNat,
    bytesOf b.order 4 r.faultingInsn.toNat, bytesOf b.order 4 r.nextInsn.toNat,
    bytesOf b.order 4 r.nip.toNat, List.replicate (b.ptrBytes - 4) 0] ++
  (List.ofFn (fun j => bytesOf b.order b.ptrBytes (r.gregs j).toNat) ++
  (List.ofFn (fun i => bytesOf b.order 8 (r.fpregs i).toNat) ++
  [bytesOf b.order b.ptrBytes r.fpscr.toNat]))

def lengths : List ℕ :=
  [4, 4, 4, 4, 4, b.ptrBytes - 4] ++ (List.replicate 41 b.ptrBytes ++
    (List.replicate 32 8 ++ [b.ptrBytes]))

def reginfoBytes (r : Reginfo b.width 0) : List Byte := (b.fields r).flatten

def reginfoOfBytes (bs : List Byte) : Reginfo b.width 0 :=
  let f := b.lengths.splitLengths bs
  { secondPrevInsn := BitVec.ofNat 32 (valueOf b.order (f.getD 0 []))
    prevInsn := BitVec.ofNat 32 (valueOf b.order (f.getD 1 []))
    faultingInsn := BitVec.ofNat 32 (valueOf b.order (f.getD 2 []))
    nextInsn := BitVec.ofNat 32 (valueOf b.order (f.getD 3 []))
    nip := BitVec.ofNat 32 (valueOf b.order (f.getD 4 []))
    gregs := fun j => BitVec.ofNat _ (valueOf b.order (f.getD (6 + j) []))
    fpregs := fun i => BitVec.ofNat 64 (valueOf b.order (f.getD (47 + i) []))
    fpscr := BitVec.ofNat _ (valueOf b.order (f.getD 79 []))
    vrregs := Fin.elim0 }

/-- `sizeof(struct reginfo)`: 444 with a 32-bit `reg_t`, 616 with a 64-bit one. -/
def sizeofReginfo : ℕ := b.lengths.sum

theorem fields_lengths (r : Reginfo b.width 0) : (b.fields r).map List.length = b.lengths := by
  simp only [fields, lengths, List.map_append, List.map_cons, List.map_nil, List.map_ofFn,
    Function.comp_def, bytesOf_length, List.length_replicate, List.ofFn_const]

theorem sizeofReginfo_eq : b.sizeofReginfo = 276 + (b.ptrBytes - 4) + 42 * b.ptrBytes := by
  simp only [sizeofReginfo, lengths, List.sum_append, List.sum_cons, List.sum_nil,
    List.sum_replicate_nat]
  omega

theorem reginfoBytes_length (r : Reginfo b.width 0) :
    (b.reginfoBytes r).length = b.sizeofReginfo := by
  rw [reginfoBytes, List.length_flatten, fields_lengths, sizeofReginfo]

theorem splitLengths_reginfoBytes (r : Reginfo b.width 0) :
    b.lengths.splitLengths (b.reginfoBytes r) = b.fields r := by
  rw [← b.fields_lengths r]
  simpa [reginfoBytes] using splitLengths_flatten (b.fields r) []

theorem fields_gregs (r : Reginfo b.width 0) (j : Fin 41) :
    (b.fields r).getD (6 + j) [] = bytesOf b.order b.ptrBytes (r.gregs j).toNat := by
  have hidx : 6 + j.val - 6 = j.val := by omega
  simp only [fields, List.getD_eq_getElem?_getD]
  rw [List.getElem?_append_right (by simp), List.getElem?_append_left
    (by simp only [List.length_ofFn, List.length_cons, List.length_nil]; omega)]
  simp only [List.length_cons, List.length_nil, List.getElem?_ofFn, hidx, j.isLt, dite_true,
    Option.getD_some]

theorem fields_fpregs (r : Reginfo b.width 0) (i : Fin 32) :
    (b.fields r).getD (47 + i) [] = bytesOf b.order 8 (r.fpregs i).toNat := by
  simp only [fields, List.getD_eq_getElem?_getD]
  have hidx : 47 + i.val - 6 - 41 = i.val := by omega
  rw [List.getElem?_append_right (by simp only [List.length_cons, List.length_nil]; omega),
    List.getElem?_append_right
      (by simp only [List.length_ofFn, List.length_cons, List.length_nil]; omega),
    List.getElem?_append_left
      (by simp only [List.length_ofFn, List.length_cons, List.length_nil]; omega)]
  simp only [List.length_cons, List.length_nil, List.length_ofFn, List.getElem?_ofFn, hidx,
    i.isLt, dite_true, Option.getD_some]

theorem fields_fpscr (r : Reginfo b.width 0) :
    (b.fields r).getD 79 [] = bytesOf b.order b.ptrBytes r.fpscr.toNat := by
  simp only [fields, List.getD_eq_getElem?_getD]
  rw [List.getElem?_append_right (by simp),
    List.getElem?_append_right
      (by simp only [List.length_ofFn, List.length_cons, List.length_nil]; omega),
    List.getElem?_append_right
      (by simp only [List.length_ofFn, List.length_cons, List.length_nil]; omega)]
  simp only [List.length_cons, List.length_nil, List.length_ofFn]
  rfl

/-- The object representation determines the record. -/
theorem reginfoOfBytes_bytes (r : Reginfo b.width 0) : b.reginfoOfBytes (b.reginfoBytes r) = r := by
  have h32 : ∀ v : BitVec 32, BitVec.ofNat 32 (valueOf b.order (bytesOf b.order 4 v.toNat)) = v :=
    fun v => ofNat_valueOf_bytesOf b.order 4 v
  have h64 : ∀ v : BitVec 64, BitVec.ofNat 64 (valueOf b.order (bytesOf b.order 8 v.toNat)) = v :=
    fun v => ofNat_valueOf_bytesOf b.order 8 v
  have hvr : r.vrregs = Fin.elim0 := funext fun i => i.elim0
  unfold reginfoOfBytes
  simp only [splitLengths_reginfoBytes, fields_gregs, fields_fpregs, fields_fpscr, h64,
    ofNat_valueOf_bytesOf, ← hvr]
  simp [fields, h32]

theorem reginfoSwap_reginfoSwap (r : Reginfo b.width 0) : b.reginfoSwap (b.reginfoSwap r) = r := by
  have h32 : ∀ v : BitVec 32, swapVec 4 (swapVec 4 v) = v := swapVec_swapVec 4
  have h64 : ∀ v : BitVec 64, swapVec 8 (swapVec 8 v) = v := swapVec_swapVec 8
  simp only [reginfoSwap, h32, h64, swapVec_swapVec]

end Build

/-- **The port.** -/
def port (b : Build) : Arch where
  ptrBytes := b.ptrBytes
  order := b.order
  getArchBigEndian := b.dppc || b.order == .big
  endianswap := b.endianswap
  Ucontext := Ucontext b.width
  Reginfo := Reginfo b.width 0
  advancePc := b.advancePc
  getUcPc := fun uc => uc.gregs risuNip
  setUcontextParamreg := fun uc value => { uc with gregs := Function.update uc.gregs paramreg value }
  getReginfoParamreg := fun ri => ri.gregs paramreg
  getRisuop := getRisuop
  getPc := b.getPc
  reginfoInit := b.reginfoInit
  reginfoUpdate := b.reginfoUpdate
  reginfoIsEq := reginfoIsEq b.options
  reginfoSize := fun _ => b.sizeofReginfo
  getArchMemory := b.getArchMemory
  reginfoHostToArch := fun r => if b.dppc then b.reginfoSwap r else r
  reginfoArchToHost := fun r => if b.dppc then b.reginfoSwap r else r
  sizeofReginfo := b.sizeofReginfo
  reginfoBytes := b.reginfoBytes
  reginfoOfBytes := b.reginfoOfBytes
  ptrBytes_eq := b.ptrBytes_eq
  endianswap_eq := by
    intro hconverts
    apply b.endianswap_eq
    by_contra hd
    rw [Bool.not_eq_true] at hd
    exact hconverts (by rw [hd, Bool.false_or])
  sizeofReginfo_lt := by
    rw [b.sizeofReginfo_eq]
    rcases b.ptrBytes_eq with h | h <;> rw [h] <;> norm_num
  reginfoBytes_length := b.reginfoBytes_length
  reginfoOfBytes_bytes := b.reginfoOfBytes_bytes
  reginfoSize_eq := fun _ => rfl
  archToHost_hostToArch := by
    intro r
    cases b.dppc
    · rfl
    · exact b.reginfoSwap_reginfoSwap r

/-- Only the emulator build on a little-endian host swaps the header. -/
theorem port_swapsHeader (b : Build) :
    (port b).swapsHeader = (b.dppc && b.order == .little) := by
  cases hd : b.dppc <;> cases ho : b.order <;> simp [Arch.swapsHeader, port, hd, ho]

/-! ### A concrete build -/

theorem four_ptrBytes : 4 = 4 ∨ 4 = 8 := .inl rfl

/-- A native build may swap bytes without built-ins. -/
theorem endianswap_eq_of_native (s : Endianswap) (h : false = true) : s = .builtin :=
  absurd h Bool.false_ne_true

/-- The fallback with an `unsigned long` of 32 bits. -/
def ulong32 : Endianswap := .fallback 32 le_rfl

/-- A big-endian build with 32-bit pointers and the default options, its image at `0x1000`. -/
def native32 : Build where
  ptrBytes := 4
  order := .big
  dppc := false
  endianswap := .builtin
  startAddress := 0x1000
  imageSize := 0x10000
  findRange := fun _ => false
  options := .default
  ptrBytes_eq := four_ptrBytes
  endianswap_eq := fun _ => rfl

theorem native32_swapsHeader : (port native32).swapsHeader = false := port_swapsHeader native32

/-- The image stopped at its beginning by a word that asks for an op. -/
def stopAt (b : Build) (insn : BitVec 32) : Event (port b) where
  sig := .sigill
  uc := { gregs := fun _ => b.startAddress, fpregs := fun _ => 0, fpscr := 0, word := fun _ => insn }
  mem := fun _ _ => 0
  behindRi := fun _ => 0

theorem stopAt_code (insn : BitVec 32) :
    (stopAt native32 insn).code =
      if insn &&& ~~~0xf ≠ 0x00005af0 then RisuOp.sigill.code else insn &&& 0xf := by
  have hin : native32.startAddress ≤ native32.startAddress + 0 ∧ native32.startAddress + 0 <
      native32.startAddress + BitVec.ofNat _ native32.imageSize := by decide
  have hword : native32.insnAt (stopAt native32 insn).uc (native32.startAddress + 0) = insn :=
    if_pos (e := native32.archToHost32 0) hin
  show getRisuop (native32.reginfoInit (stopAt native32 insn).uc) = _
  unfold getRisuop
  rw [show (native32.reginfoInit (stopAt native32 insn).uc).faultingInsn = insn from hword]

/-- The image stopped by a request for an op. -/
def request (op : RisuOp) : Event (port native32) := stopAt native32 (0x5af0 ||| op.code)

theorem request_op (op : RisuOp) : RisuOp.ofCode (request op).code = some op := by
  rw [request, stopAt_code]
  cases op <;> decide

end Risu.Ppc64
