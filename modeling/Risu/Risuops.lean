import Risu.Aarch64.Reginfo
import Risu.Arm.Reginfo
import Risu.Gen.Arm.Writers
import Risu.Gen.LoongArch
import Risu.Gen.M68k
import Risu.Gen.Ppc.Setup
import Risu.Gen.S390x
import Risu.Loongarch64.Reginfo
import Risu.Ppc64.Port

/-!
# Ops in the code under test

A generator writes an op as an illegal instruction, and the port reads it in the signal handler.

* `ReadsBack` — a port takes an instruction for an op if and only if its bytes are those that the generator
  writes, and goes on behind them;
* `readsBack_of_word` — an instruction of one word, with the op in its last four bits;
* `risuops_read_back` — it is so on every port with a generator.
-/

namespace Risu

open Lib

/-- An instruction is read as an op if and only if the bytes at the pc are those of its code, and execution
goes on behind them. -/
structure ReadsBack {U : Type} {n : ℕ} (code : BitVec 4 → List Byte) (holds : U → List Byte → Prop)
    (pc resume : U → BitVec n) (risuop : U → BitVec 32) : Prop where
  op_iff : ∀ u op, risuop u = op.setWidth 32 ↔ holds u (code op)
  resume_eq : ∀ u op, holds u (code op) → resume u = pc u + BitVec.ofNat n (code op).length

/-! ### Words with a key -/

section Keys

variable {w : ℕ} {insn key op mask : BitVec w}

theorem and_not_or_and (x mask : BitVec w) : (x &&& ~~~mask) ||| (x &&& mask) = x := by
  apply BitVec.eq_of_getLsbD_eq
  intro i hi
  simp only [BitVec.getLsbD_or, BitVec.getLsbD_and, BitVec.getLsbD_not, hi, decide_true, Bool.true_and]
  cases x.getLsbD i <;> cases mask.getLsbD i <;> rfl

theorem or_and (x y mask : BitVec w) : (x ||| y) &&& mask = (x &&& mask) ||| (y &&& mask) := by
  apply BitVec.eq_of_getLsbD_eq
  intro i hi
  simp only [BitVec.getLsbD_or, BitVec.getLsbD_and]
  cases x.getLsbD i <;> cases y.getLsbD i <;> cases mask.getLsbD i <;> rfl

/-- A word is cut into the bits of a mask and the others. -/
theorem and_not_and_iff (hkey : key &&& mask = 0#w) (hop : op &&& ~~~mask = 0#w) :
    insn &&& ~~~mask = key ∧ insn &&& mask = op ↔ insn = key ||| op := by
  constructor
  · rintro ⟨rfl, rfl⟩
    exact (and_not_or_and insn mask).symm
  · rintro rfl
    have hkey' := and_not_or_and key mask
    have hop' := and_not_or_and op mask
    rw [hkey, BitVec.or_zero] at hkey'
    rw [hop, BitVec.zero_or] at hop'
    rw [or_and, or_and, hkey, hop, hkey', hop', BitVec.or_zero, BitVec.zero_or]
    exact ⟨rfl, rfl⟩

end Keys

/-- `OP_SIGILL` is not an op that a generator writes. -/
theorem sigill_ne_op : ∀ op : BitVec 4, (-1 : BitVec 32) ≠ op.setWidth 32 := by decide

/-- The op in the bits of a mask, under a key. -/
theorem keyed_iff {insn key mask : BitVec 32} (hkey : key &&& mask = 0#32) {op : BitVec 4}
    (hop : op.setWidth 32 &&& ~~~mask = 0#32) :
    (if insn &&& ~~~mask ≠ key then -1 else insn &&& mask) = op.setWidth 32 ↔
      insn = key ||| op.setWidth 32 := by
  rw [← and_not_and_iff hkey hop]
  split_ifs with h
  · exact ⟨fun heq => absurd heq (sigill_ne_op op), fun heq => absurd heq.1 h⟩
  · rw [not_not] at h
    exact ⟨fun heq => ⟨h, heq⟩, fun heq => heq.2⟩

theorem op_and_not_low : ∀ op : BitVec 4, op.setWidth 32 &&& ~~~0xf#32 = 0#32 := by decide

/-- The bytes are at an address. -/
def HoldsAt {n : ℕ} (m : BitVec n → Byte) (a : BitVec n) (bs : List Byte) : Prop := load m a bs.length = bs

theorem holdsAt_iff {n : ℕ} {m : BitVec n → Byte} {a : BitVec n} (o : Order) (k : ℕ) (v : BitVec (8 * k)) :
    HoldsAt m a (bytesOf o k v.toNat) ↔ BitVec.ofNat (8 * k) (valueOf o (load m a k)) = v := by
  rw [HoldsAt, bytesOf_length]
  exact eq_bytesOf_iff o (length_load m a k) v

/-- A port whose instruction for an op is one word, with a key and the op in its last four bits. -/
theorem readsBack_of_word {U : Type} {n : ℕ} {code : BitVec 4 → List Byte} {mem : U → BitVec n → Byte}
    {pc resume : U → BitVec n} {risuop : U → BitVec 32} (o : Order) (key : BitVec 32)
    (hkey : key &&& 0xf#32 = 0#32) (hcode : ∀ op, code op = bytesOf o 4 (key ||| op.setWidth 32).toNat)
    (hrisuop : ∀ u, risuop u =
      if BitVec.ofNat 32 (valueOf o (load (mem u) (pc u) 4)) &&& ~~~0xf#32 ≠ key then -1
      else BitVec.ofNat 32 (valueOf o (load (mem u) (pc u) 4)) &&& 0xf#32)
    (hresume : ∀ u op, HoldsAt (mem u) (pc u) (code op) → resume u = pc u + 4) :
    ReadsBack code (fun u => HoldsAt (mem u) (pc u)) pc resume risuop where
  op_iff := by
    intro u op
    rw [hrisuop, keyed_iff hkey (op_and_not_low op), hcode]
    exact (holdsAt_iff o 4 _).symm
  resume_eq := by
    intro u op h
    rw [hresume u op h, hcode, bytesOf_length]
    rfl

/-! ### The ports -/

/-- The bytes of the code of a little-endian generator. -/
def bytesOfCode (cs : List Gen.Arm.Code) : List Byte :=
  cs.flatMap fun c =>
    match c with
    | .half w => bytesOf .little 2 w.toNat
    | .word w => bytesOf .little 4 w.toNat

namespace Aarch64

/-- `advance_pc` of `risu_aarch64.c` -/
def advancePc (u : Frame) : Frame := { u with pc := u.pc + 4 }

/-- `get_risuop` of `risu_aarch64.c` -/
def getRisuop (ri : Reginfo) : BitVec 32 :=
  let op := ri.faultingInsn &&& 0xf#32
  let key := ri.faultingInsn &&& ~~~0xf#32
  if key ≠ 0x00005af0#32 then -1 else op

theorem faultingInsn_reginfoInit (e : Env) (u : Frame) :
    (reginfoInit e u).faultingInsn = read32 u.mem u.pc := by
  simp only [reginfoInit]
  split_ifs <;> rfl

theorem readsBack (e : Env) :
    ReadsBack (fun op => bytesOfCode (Gen.Arm.writeRisuop .aarch64 (op.setWidth 64)))
      (fun u : Frame => HoldsAt u.mem u.pc) Frame.pc (fun u => (advancePc u).pc)
      (fun u => getRisuop (reginfoInit e u)) := by
  refine readsBack_of_word .little 0x00005af0#32 (by decide) ?_ ?_ (fun _ _ _ => rfl)
  · have hword : ∀ op : BitVec 4,
        Gen.insn32 (0x00005af0#64 ||| op.setWidth 64) = 0x00005af0#32 ||| op.setWidth 32 := by decide
    intro op
    rw [← hword]
    exact List.append_nil _
  · intro u
    rw [getRisuop, faultingInsn_reginfoInit]
    rfl

end Aarch64

namespace Loongarch64

/-- `advance_pc` of `risu_loongarch64.c` -/
def advancePc (u : Frame) : Frame := { u with pc := u.pc + 4 }

/-- `get_risuop` of `risu_loongarch64.c` -/
def getRisuop (ri : Reginfo) : BitVec 32 :=
  let op := ri.faultingInsn &&& 0xf#32
  let key := ri.faultingInsn &&& ~~~0xf#32
  if key ≠ 0x000001f0#32 then -1 else op

theorem faultingInsn_reginfoInit (start : BitVec 64) (u : Frame) :
    (reginfoInit start u).faultingInsn = read32 u.mem u.pc := by
  rw [reginfoInit]
  cases u.kind <;> rfl

theorem readsBack (start : BitVec 64) :
    ReadsBack (fun op => bytesOf .little 4 (Gen.LoongArch.writeRisuop (op.setWidth 64)).toNat)
      (fun u : Frame => HoldsAt u.mem u.pc) Frame.pc (fun u => (advancePc u).pc)
      (fun u => getRisuop (reginfoInit start u)) := by
  refine readsBack_of_word .little 0x000001f0#32 (by decide) ?_ ?_ (fun _ _ _ => rfl)
  · have hword : ∀ op : BitVec 4,
        Gen.LoongArch.writeRisuop (op.setWidth 64) = 0x000001f0#32 ||| op.setWidth 32 := by decide
    intro op
    rw [← hword]
  · intro u
    rw [getRisuop, faultingInsn_reginfoInit]
    rfl

end Loongarch64

namespace M68k

/-- `gregs[R_PC]` -/
def Ucontext.pc (uc : Ucontext) : BitVec 32 := uc.gregs rPc

theorem readsBack (start : BitVec 32) :
    ReadsBack (fun op => Gen.bytesOfHalves (Gen.M68k.writeRisuop (op.setWidth 64)))
      (fun uc : Ucontext => HoldsAt uc.mem uc.pc) Ucontext.pc (fun uc => (advancePc uc).pc)
      (fun uc => getRisuop (reginfoInit start uc)) := by
  refine readsBack_of_word .big 0x4afc7000#32 (by decide) ?_ (fun _ => rfl) ?_
  · have hword : ∀ op : BitVec 4,
        Gen.insn32 (0x4afc7000#64 ||| op.setWidth 64) = 0x4afc7000#32 ||| op.setWidth 32 := by decide
    intro op
    rw [← hword]
    exact Gen.bytes_insn32Halves _
  · intro uc op _
    show Function.update uc.gregs rPc (uc.gregs rPc + 4) rPc = uc.pc + 4
    rw [Function.update_self]
    rfl

end M68k

namespace Arm

/-- A signal in the handler, with what `reginfo_init` has made of its context. -/
structure Fault where
  start : BitVec 32
  testFpExc : Bool
  turns : ℕ
  uc : Ucontext
  ri : Reginfo
  uc' : Ucontext
  init : reginfoInit start testFpExc turns uc = some (ri, uc')

/-- The processor was in Thumb state. -/
def Ucontext.isThumb (uc : Ucontext) : Bool := uc.armCpsr &&& 0x20#32 != 0

/-- What `reginfo_init` leaves as it was. -/
theorem Fault.spec (f : Fault) :
    f.ri.faultingInsn = (registers f.start f.uc).faultingInsn ∧
      f.ri.faultingInsnSize = (registers f.start f.uc).faultingInsnSize ∧
      (advancePc f.uc').armPc = f.uc.armPc + BitVec.ofNat 32 (insnsize f.uc) := by
  obtain ⟨r, hr, hf⟩ := Option.map_eq_some_iff.mp f.init
  have hri : r.1 = f.ri := congrArg Prod.fst hf
  have huc : { f.uc with ucRegspace := r.2 } = f.uc' := congrArg Prod.snd hf
  have hrest := reginfoInitVfp_rest hr
  rw [hri] at hrest
  refine ⟨by rw [hrest], by rw [hrest], ?_⟩
  rw [← huc]
  show Function.update f.uc.gregs 15 (f.uc.armPc + BitVec.ofNat 32 (insnsize f.uc)) 15 = _
  rw [Function.update_self]

/-- Two halfwords make a word. -/
theorem read16_or (m : Mem) (a : BitVec 32) :
    (read16 m a).setWidth 32 ||| (read16 m (a + 2)).setWidth 32 <<< 16 =
      BitVec.ofNat 32 (valueOf .little (load m a 4)) := by
  have hlt (a : BitVec 32) : leValue (load m a 2) < 2 ^ 16 := by
    have hbytes := leValue_lt (load m a 2)
    rw [length_load] at hbytes
    omega
  have hlow := hlt a
  have hhigh := hlt (a + 2)
  have hvalue : leValue (load m a 4) = 2 ^ 16 * leValue (load m (a + 2) 2) + leValue (load m a 2) := by
    have hload : load m a 4 = load m a 2 ++ load m (a + 2) 2 := load_add m a 2 2
    rw [hload]
    simp only [load, List.range_succ, List.range_zero, List.nil_append, List.map_cons, List.map_nil,
      List.cons_append, leValue]
    omega
  have happend : (read16 m a).setWidth 32 ||| (read16 m (a + 2)).setWidth 32 <<< 16 =
      (read16 m (a + 2) ++ read16 m a : BitVec 32) := by
    rw [BitVec.append_def, BitVec.shiftLeftZeroExtend_eq, BitVec.or_comm]
    rfl
  rw [happend]
  apply BitVec.eq_of_toNat_eq
  rw [BitVec.toNat_append, read16, read16, BitVec.toNat_ofNat, BitVec.toNat_ofNat, BitVec.toNat_ofNat]
  simp only [valueOf]
  rw [Nat.mod_eq_of_lt hlow, Nat.mod_eq_of_lt hhigh, ← Nat.shiftLeft_add_eq_or_of_lt hlow, Nat.shiftLeft_eq,
    hvalue]
  omega

theorem insnsize_arm {uc : Ucontext} (h : uc.isThumb = false) : insnsize uc = 4 := by
  rw [Ucontext.isThumb, bne_eq_false_iff_eq] at h
  rw [insnsize, if_neg (not_not.mpr h)]

/-- The A32 instructions. -/
theorem readsBack_arm :
    ReadsBack (fun op => bytesOfCode (Gen.Arm.writeRisuop .arm (op.setWidth 64)))
      (fun f : { f : Fault // f.uc.isThumb = false } => HoldsAt f.val.uc.mem f.val.uc.armPc)
      (fun f => f.val.uc.armPc) (fun f => (advancePc f.val.uc').armPc) (fun f => getRisuop f.val.ri) := by
  refine readsBack_of_word .little 0xe7fe5af0#32 (by decide) ?_ ?_ ?_
  · have hword : ∀ op : BitVec 4,
        Gen.insn32 (0xe7fe5af0#64 ||| op.setWidth 64) = 0xe7fe5af0#32 ||| op.setWidth 32 := by decide
    intro op
    rw [← hword]
    exact List.append_nil _
  · rintro ⟨f, hf⟩
    obtain ⟨hinsn, hsize, -⟩ := f.spec
    have hword : (registers f.start f.uc).faultingInsn =
        BitVec.ofNat 32 (valueOf .little (load f.uc.mem f.uc.armPc 4)) := by
      rw [registers, insnsize_arm hf, ← read16_or]
      rfl
    have hfour : (registers f.start f.uc).faultingInsnSize = 4#32 := by
      rw [registers, insnsize_arm hf]
    rw [getRisuop, hinsn, hsize, hword, hfour]
    rfl
  · rintro ⟨f, hf⟩ op -
    rw [f.spec.2.2, insnsize_arm hf]
    rfl

theorem insnsize_thumb {uc : Ucontext} (h : uc.isThumb = true) :
    insnsize uc =
      if read16 uc.mem uc.armPc &&& 0xf800#16 = 0xe800#16 ∨
        read16 uc.mem uc.armPc &&& 0xf800#16 = 0xf000#16 ∨
          read16 uc.mem uc.armPc &&& 0xf800#16 = 0xf800#16 then 4
      else 2 := by
  rw [Ucontext.isThumb, bne_iff_ne] at h
  rw [insnsize, if_pos h]

/-- An op of Thumb is no wide instruction. -/
theorem insnsize_op {uc : Ucontext} (h : uc.isThumb = true) {op : BitVec 4}
    (hop : read16 uc.mem uc.armPc = 0xdee0#16 ||| op.setWidth 16) : insnsize uc = 2 := by
  have hnarrow : ∀ op : BitVec 4,
      ¬((0xdee0#16 ||| op.setWidth 16) &&& 0xf800#16 = 0xe800#16 ∨
        (0xdee0#16 ||| op.setWidth 16) &&& 0xf800#16 = 0xf000#16 ∨
          (0xdee0#16 ||| op.setWidth 16) &&& 0xf800#16 = 0xf800#16) := by decide
  rw [insnsize_thumb h, hop, if_neg (hnarrow op)]

/-- The halfword of an op, as a word. -/
theorem half_iff (x : BitVec 16) (op : BitVec 4) :
    x.setWidth 32 = 0xdee0#32 ||| op.setWidth 32 ↔ x = 0xdee0#16 ||| op.setWidth 16 := by
  have hwide : ∀ op : BitVec 4,
      (0xdee0#16 ||| op.setWidth 16).setWidth 32 = 0xdee0#32 ||| op.setWidth 32 := by decide
  rw [← hwide]
  constructor
  · intro h
    have hback := congrArg (BitVec.setWidth 16) h
    rwa [BitVec.setWidth_setWidth_of_le _ (by decide), BitVec.setWidth_setWidth_of_le _ (by decide),
      BitVec.setWidth_eq, BitVec.setWidth_eq] at hback
  · rintro rfl
    rfl

/-- A wide instruction of Thumb is never an A32 op. -/
theorem wide_ne {low high : BitVec 16} {op : BitVec 4}
    (hwide : low &&& 0xf800#16 = 0xe800#16 ∨ low &&& 0xf800#16 = 0xf000#16 ∨ low &&& 0xf800#16 = 0xf800#16) :
    low.setWidth 32 ||| high.setWidth 32 <<< 16 ≠ 0xe7fe5af0#32 ||| op.setWidth 32 := by
  intro h
  have hlow : low = (0xe7fe5af0#32 ||| op.setWidth 32).setWidth 16 := by
    rw [← h]
    apply BitVec.eq_of_getLsbD_eq
    intro i hi
    rw [BitVec.getLsbD_setWidth, BitVec.getLsbD_or, BitVec.getLsbD_shiftLeft, BitVec.getLsbD_setWidth]
    simp [hi, show i < 32 by omega]
  have hkey : ∀ op : BitVec 4, ((0xe7fe5af0#32 ||| op.setWidth 32).setWidth 16) &&& 0xf800#16 = 0x5800#16 := by
    decide
  rw [hlow, hkey] at hwide
  exact absurd hwide (by decide)

/-- The Thumb instructions: an op is a halfword. -/
theorem readsBack_thumb :
    ReadsBack (fun op => bytesOfCode (Gen.Arm.writeRisuop .thumb (op.setWidth 64)))
      (fun f : { f : Fault // f.uc.isThumb = true } => HoldsAt f.val.uc.mem f.val.uc.armPc)
      (fun f => f.val.uc.armPc) (fun f => (advancePc f.val.uc').armPc) (fun f => getRisuop f.val.ri) := by
  have hhalf : ∀ op : BitVec 4,
      Gen.insn16 (0xdee0#64 ||| op.setWidth 64) = 0xdee0#16 ||| op.setWidth 16 := by decide
  have hcode (op : BitVec 4) : bytesOfCode (Gen.Arm.writeRisuop .thumb (op.setWidth 64)) =
      bytesOf .little 2 (0xdee0#16 ||| op.setWidth 16).toNat := by
    rw [← hhalf]
    exact List.append_nil _
  have hholds (f : Fault) (op : BitVec 4) :
      HoldsAt f.uc.mem f.uc.armPc (bytesOfCode (Gen.Arm.writeRisuop .thumb (op.setWidth 64))) ↔
        read16 f.uc.mem f.uc.armPc = 0xdee0#16 ||| op.setWidth 16 := by
    rw [hcode]
    exact holdsAt_iff .little 2 _
  constructor
  · rintro ⟨f, hf⟩ op
    obtain ⟨hinsn, hsize, -⟩ := f.spec
    have hthumb := insnsize_thumb hf
    rw [hholds, getRisuop, hinsn, hsize]
    by_cases hwide : read16 f.uc.mem f.uc.armPc &&& 0xf800#16 = 0xe800#16 ∨
        read16 f.uc.mem f.uc.armPc &&& 0xf800#16 = 0xf000#16 ∨
          read16 f.uc.mem f.uc.armPc &&& 0xf800#16 = 0xf800#16
    · rw [if_pos hwide] at hthumb
      have hkey : 0xe7fe5af0#32 &&& 0xf#32 = 0#32 := by decide
      rw [registers, hthumb]
      refine (keyed_iff hkey (op_and_not_low op)).trans ⟨fun h => absurd h (wide_ne hwide), fun h => ?_⟩
      exact absurd (insnsize_op hf h) (by rw [hthumb]; decide)
    · rw [if_neg hwide] at hthumb
      have hkey : 0xdee0#32 &&& 0xf#32 = 0#32 := by decide
      rw [registers, hthumb]
      exact (keyed_iff hkey (op_and_not_low op)).trans (half_iff _ op)
  · rintro ⟨f, hf⟩ op h
    rw [f.spec.2.2, insnsize_op hf ((hholds f op).mp h), hcode, bytesOf_length]

end Arm

namespace S390x

/-- A signal in the handler.  The processor has gone on to the next instruction. -/
structure Fault where
  uc : Ucontext
  siaddr : BitVec 64
  next : uc.pswAddr = siaddr + BitVec.ofNat 64 (insnLen (uc.mem siaddr))

/-- The first byte of a word. -/
theorem first_of_word {m : Mem} {a : BitVec 64} {v : BitVec 32} (h : read32 m a = v) :
    m a = v.extractLsb' 24 8 := by
  have hbytes : load m a 4 = bytesOf .big 4 v.toNat :=
    (eq_bytesOf_iff .big (length_load m a 4) v).mpr h
  have hfirst : (load m a 4)[0]? = some (m a) := by
    simp [load]
  rw [hbytes] at hfirst
  have hhead : (bytesOf .big 4 v.toNat)[0]? = some (BitVec.ofNat 8 (v.toNat / 256 / 256 / 256)) := rfl
  rw [hhead] at hfirst
  rw [← Option.some.inj hfirst]
  apply BitVec.eq_of_toNat_eq
  rw [BitVec.toNat_ofNat, BitVec.extractLsb'_toNat, Nat.shiftRight_eq_div_pow]
  omega

/-- An op is an instruction of four bytes. -/
theorem insnLen_of_word {m : Mem} {a : BitVec 64} {op : BitVec 4}
    (h : read32 m a = 0x835a0f00#32 ||| op.setWidth 32) : insnLen (m a) = 4 := by
  have hlen : ∀ op : BitVec 4, insnLen ((0x835a0f00#32 ||| op.setWidth 32).extractLsb' 24 8) = 4 := by
    decide
  rw [first_of_word h, hlen]

/-- An op is read from an instruction of four bytes. -/
theorem getRisuop_eq_iff (start : BitVec 64) (uc : Ucontext) (siaddr : BitVec 64) (op : BitVec 4) :
    getRisuop (reginfoInit start uc siaddr) = op.setWidth 32 ↔
      insnLen (uc.mem siaddr) = 4 ∧ read32 uc.mem siaddr = 0x835a0f00#32 ||| op.setWidth 32 := by
  have hinsn (hlen : insnLen (uc.mem siaddr) = 4) :
      (insnAt uc.mem siaddr).setWidth 32 = read32 uc.mem siaddr := by
    rw [insnLen] at hlen
    by_cases h2 : uc.mem siaddr >>> 6 = 0
    · rw [if_pos h2] at hlen
      exact absurd hlen (by decide)
    · by_cases h6 : uc.mem siaddr >>> 6 = 3
      · rw [if_neg h2, if_pos h6] at hlen
        exact absurd hlen (by decide)
      · rw [insnAt, if_neg h2, if_neg h6, BitVec.setWidth_setWidth_of_le _ (by decide), BitVec.setWidth_eq]
  have hrisuop : getRisuop (reginfoInit start uc siaddr) =
      if insnLen (uc.mem siaddr) = 4 ∧ (insnAt uc.mem siaddr).setWidth 32 &&& ~~~0xff#32 = 0x835a0f00#32 then
        (insnAt uc.mem siaddr).setWidth 32 &&& 0xff#32
      else -1 := rfl
  have hkey : 0x835a0f00#32 &&& 0xff#32 = 0#32 := by decide
  have hmask : ∀ op : BitVec 4, op.setWidth 32 &&& ~~~0xff#32 = 0#32 := by decide
  rw [hrisuop, ← keyed_iff hkey (hmask op)]
  by_cases hlen : insnLen (uc.mem siaddr) = 4
  · rw [hinsn hlen]
    simp only [hlen, true_and, ne_eq, ite_not]
  · rw [if_neg fun h => hlen h.1]
    exact ⟨fun h => absurd h (sigill_ne_op op), fun h => absurd h.1 hlen⟩

theorem readsBack (start : BitVec 64) :
    ReadsBack (fun op => Gen.bytesOfHalves (Gen.S390x.writeRisuop (op.setWidth 64)))
      (fun f : Fault => HoldsAt f.uc.mem f.siaddr) Fault.siaddr (fun f => (advancePc f.uc).pswAddr)
      (fun f => getRisuop (reginfoInit start f.uc f.siaddr)) := by
  have hword : ∀ op : BitVec 4,
      Gen.insn32 (0x835a0f00#64 ||| op.setWidth 64) = 0x835a0f00#32 ||| op.setWidth 32 := by decide
  have hcode (op : BitVec 4) : Gen.bytesOfHalves (Gen.S390x.writeRisuop (op.setWidth 64)) =
      bytesOf .big 4 (0x835a0f00#32 ||| op.setWidth 32).toNat := by
    rw [← hword]
    exact Gen.bytes_insn32Halves _
  have hholds (f : Fault) (op : BitVec 4) :
      HoldsAt f.uc.mem f.siaddr (Gen.bytesOfHalves (Gen.S390x.writeRisuop (op.setWidth 64))) ↔
        read32 f.uc.mem f.siaddr = 0x835a0f00#32 ||| op.setWidth 32 := by
    rw [hcode]
    exact holdsAt_iff .big 4 _
  constructor
  · intro f op
    rw [hholds, getRisuop_eq_iff]
    exact ⟨And.right, fun h => ⟨insnLen_of_word h, h⟩⟩
  · intro f op h
    rw [hcode, bytesOf_length, ← insnLen_of_word ((hholds f op).mp h)]
    exact f.next

end S390x

namespace Ppc64

variable (b : Build)

/-- The pc is in the image. -/
def InImage (uc : Ucontext b.width) : Prop :=
  b.startAddress ≤ uc.gregs risuNip ∧ uc.gregs risuNip < b.startAddress + BitVec.ofNat _ b.imageSize

/-- The word at the pc has these bytes. -/
def HoldsAtPc (uc : Ucontext b.width) (bs : List Byte) : Prop :=
  bytesOf b.order 4 (uc.word (uc.gregs risuNip)).toNat = bs

/-- A native build. -/
theorem readsBack (h : b.dppc = false) :
    ReadsBack (fun op => bytesOf b.order 4 (Gen.Ppc.writeRisuop (op.setWidth 64)).toNat)
      (fun uc : { uc : Ucontext b.width // InImage b uc } => HoldsAtPc b uc)
      (fun uc => uc.val.gregs risuNip) (fun uc => (b.advancePc uc.val).gregs risuNip)
      (fun uc => getRisuop (b.reginfoInit uc.val)) := by
  have hword : ∀ op : BitVec 4,
      Gen.Ppc.writeRisuop (op.setWidth 64) = 0x00005af0#32 ||| op.setWidth 32 := by decide
  have hholds (uc : Ucontext b.width) (op : BitVec 4) :
      HoldsAtPc b uc (bytesOf b.order 4 (Gen.Ppc.writeRisuop (op.setWidth 64)).toNat) ↔
        uc.word (uc.gregs risuNip) = 0x00005af0#32 ||| op.setWidth 32 := by
    rw [HoldsAtPc, hword, eq_bytesOf_iff b.order (bytesOf_length _ _ _)]
    exact Eq.congr_left (ofNat_valueOf_bytesOf b.order 4 _)
  constructor
  · rintro ⟨uc, huc⟩ op
    have hinsn : (b.reginfoInit uc).faultingInsn = uc.word (uc.gregs risuNip) := by
      show b.insnAt uc (uc.gregs risuNip + 0) = _
      have hnative : b.archToHost32 (uc.word (uc.gregs risuNip)) = uc.word (uc.gregs risuNip) := by
        rw [Build.archToHost32, h]
        cases b.order <;> rfl
      have hnip : uc.gregs risuNip + 0 = uc.gregs risuNip := BitVec.add_zero _
      rw [hnip, Build.insnAt]
      exact (if_pos huc).trans hnative
    have hkey : 0x00005af0#32 &&& 0xf#32 = 0#32 := by decide
    rw [hholds, getRisuop, hinsn]
    exact keyed_iff hkey (op_and_not_low op)
  · rintro ⟨uc, huc⟩ op -
    rw [Build.advancePc, h, bytesOf_length]
    exact Function.update_self risuNip _ uc.gregs

end Ppc64

/-! ### All ports -/

/-- The ops that a generator writes, and no other instructions, are those that the port reads, and it goes on
behind them. -/
theorem risuops_read_back (e : Aarch64.Env) (start : BitVec 64) (start32 : BitVec 32) (b : Ppc64.Build)
    (native : b.dppc = false) :
    ReadsBack (fun op => bytesOfCode (Gen.Arm.writeRisuop .aarch64 (op.setWidth 64)))
      (fun u : Aarch64.Frame => HoldsAt u.mem u.pc) Aarch64.Frame.pc (fun u => (Aarch64.advancePc u).pc)
      (fun u => Aarch64.getRisuop (Aarch64.reginfoInit e u)) ∧
    ReadsBack (fun op => bytesOfCode (Gen.Arm.writeRisuop .arm (op.setWidth 64)))
      (fun f : { f : Arm.Fault // f.uc.isThumb = false } => HoldsAt f.val.uc.mem f.val.uc.armPc)
      (fun f => f.val.uc.armPc) (fun f => (Arm.advancePc f.val.uc').armPc)
      (fun f => Arm.getRisuop f.val.ri) ∧
    ReadsBack (fun op => bytesOfCode (Gen.Arm.writeRisuop .thumb (op.setWidth 64)))
      (fun f : { f : Arm.Fault // f.uc.isThumb = true } => HoldsAt f.val.uc.mem f.val.uc.armPc)
      (fun f => f.val.uc.armPc) (fun f => (Arm.advancePc f.val.uc').armPc)
      (fun f => Arm.getRisuop f.val.ri) ∧
    ReadsBack (fun op => bytesOf .little 4 (Gen.LoongArch.writeRisuop (op.setWidth 64)).toNat)
      (fun u : Loongarch64.Frame => HoldsAt u.mem u.pc) Loongarch64.Frame.pc
      (fun u => (Loongarch64.advancePc u).pc)
      (fun u => Loongarch64.getRisuop (Loongarch64.reginfoInit start u)) ∧
    ReadsBack (fun op => Gen.bytesOfHalves (Gen.M68k.writeRisuop (op.setWidth 64)))
      (fun uc : M68k.Ucontext => HoldsAt uc.mem uc.pc) M68k.Ucontext.pc (fun uc => (M68k.advancePc uc).pc)
      (fun uc => M68k.getRisuop (M68k.reginfoInit start32 uc)) ∧
    ReadsBack (fun op => bytesOf b.order 4 (Gen.Ppc.writeRisuop (op.setWidth 64)).toNat)
      (fun uc : { uc : Ppc64.Ucontext b.width // Ppc64.InImage b uc } => Ppc64.HoldsAtPc b uc)
      (fun uc => uc.val.gregs Ppc64.risuNip) (fun uc => (b.advancePc uc.val).gregs Ppc64.risuNip)
      (fun uc => Ppc64.getRisuop (b.reginfoInit uc.val)) ∧
    ReadsBack (fun op => Gen.bytesOfHalves (Gen.S390x.writeRisuop (op.setWidth 64)))
      (fun f : S390x.Fault => HoldsAt f.uc.mem f.siaddr) S390x.Fault.siaddr
      (fun f => (S390x.advancePc f.uc).pswAddr)
      (fun f => S390x.getRisuop (S390x.reginfoInit start f.uc f.siaddr)) :=
  ⟨Aarch64.readsBack e, Arm.readsBack_arm, Arm.readsBack_thumb, Loongarch64.readsBack start,
    M68k.readsBack start32, Ppc64.readsBack b native, S390x.readsBack start⟩

/-- The ops of a native 32-bit build. -/
theorem risuops_read_back_native32 :
    ReadsBack (fun op => bytesOf .big 4 (Gen.Ppc.writeRisuop (op.setWidth 64)).toNat)
      (fun uc : { uc : Ppc64.Ucontext Ppc64.native32.width // Ppc64.InImage Ppc64.native32 uc } =>
        Ppc64.HoldsAtPc Ppc64.native32 uc)
      (fun uc => uc.val.gregs Ppc64.risuNip)
      (fun uc => (Ppc64.native32.advancePc uc.val).gregs Ppc64.risuNip)
      (fun uc => Ppc64.getRisuop (Ppc64.native32.reginfoInit uc.val)) :=
  (risuops_read_back ⟨0, 0, by decide⟩ 0 0 Ppc64.native32 rfl).2.2.2.2.2.1

end Risu
