import Mathlib.Data.Fintype.Pi
import Risu.Lib.Chain
import Risu.Lib.Memory

/-!
# Register records of the 32-bit Arm port (`risu_arm.c`, `risu_reginfo_arm.c`)

The floating-point registers are in one of the blocks behind the signal frame, and the exception flags in
it are cleared when they are read.

* `insnsize` — the size of the instruction at the pc;
* `reginfoInitVfp` — the loop over the blocks;
* `reginfoInit`, `reginfoIsEq` — the record of a signal frame, and the comparison;
* `Block`, `capture` — the blocks as a list, and what is taken from the first one that is large enough;
* `reginfoInitVfp_captures` — the loop ends, and takes that.
-/

namespace Risu.Arm

open Lib

/-! ### Signal frames -/

abbrev Mem := BitVec 32 → Byte

def read16 (m : Mem) (a : BitVec 32) : BitVec 16 := BitVec.ofNat 16 (valueOf .little (load m a 2))

/-- The words of `uc_regspace`. -/
abbrev Regspace := ℕ → BitVec 32

structure Ucontext where
  /-- `arm_r0` to `arm_pc` -/
  gregs : Fin 16 → BitVec 32
  armCpsr : BitVec 32
  mem : Mem
  ucRegspace : Regspace

def Ucontext.armPc (uc : Ucontext) : BitVec 32 := uc.gregs 15

/-- The size of the instruction at the pc, in bytes. -/
def insnsize (uc : Ucontext) : ℕ :=
  if uc.armCpsr &&& 0x20#32 ≠ 0 then
    let key := read16 uc.mem uc.armPc &&& 0xf800#16
    if key = 0xe800#16 ∨ key = 0xf000#16 ∨ key = 0xf800#16 then 4 else 2
  else 4

def advancePc (uc : Ucontext) : Ucontext :=
  { uc with gregs := Function.update uc.gregs 15 (uc.armPc + BitVec.ofNat 32 (insnsize uc)) }

/-! ### Records -/

structure Reginfo where
  fpregs : Fin 32 → BitVec 64
  faultingInsn : BitVec 32
  faultingInsnSize : BitVec 32
  gpreg : Fin 16 → BitVec 32
  cpsr : BitVec 32
  fpscr : BitVec 32
  deriving DecidableEq

/-- `VFP_MAGIC` -/
def vfpMagic : BitVec 32 := 0x56465001#32

/-- The cumulative exception flags are cleared. -/
def cleared (v : BitVec 32) : BitVec 32 := v &&& ~~~0x9f#32

/-- The part of the fpscr that is recorded: without the bits that are unknown, and without the exception
flags unless these are tested. -/
def fpscrOf (testFpExc : Bool) (v : BitVec 32) : BitVec 32 :=
  let fpscr := v &&& 0xffff9f9f#32
  if testFpExc then fpscr else cleared fpscr

/-- The loop of `reginfo_init_vfp`, at most `turns` turns; `none` if it does not end. -/
def reginfoInitVfp (testFpExc : Bool) (mem : Regspace) : ℕ → ℕ → Reginfo → Option (Reginfo × Regspace)
  | 0, _, _ => none
  | turns + 1, rs, ri =>
    let magic := mem rs
    let size := mem (rs + 1) - 8#32
    let rs := rs + 2
    if magic = 0 then some ({ ri with fpregs := fun _ => 0, fpscr := 0 }, mem)
    else if magic = vfpMagic then
      if size.toNat < (32 * 2 + 1) * 4 then reginfoInitVfp testFpExc mem turns (rs + size.toNat / 4) ri
      else
        some
          ({ ri with
              fpregs := fun i =>
                (mem (rs + 2 * i)).setWidth 64 ||| (mem (rs + 2 * i + 1)).setWidth 64 <<< 32
              fpscr := fpscrOf testFpExc (mem (rs + 64)) },
            Function.update mem (rs + 64) (cleared (mem (rs + 64))))
    else reginfoInitVfp testFpExc mem turns (rs + size.toNat / 4) ri

/-- The record of the context without the floating-point registers. -/
def registers (imageStartAddress : BitVec 32) (uc : Ucontext) : Reginfo :=
  let low := (read16 uc.mem uc.armPc).setWidth 32
  { fpregs := fun _ => 0
    faultingInsn :=
      if insnsize uc ≠ 2 then low ||| (read16 uc.mem (uc.armPc + 2)).setWidth 32 <<< 16 else low
    faultingInsnSize := BitVec.ofNat 32 (insnsize uc)
    gpreg := fun i =>
      if i = 13 then 0xdeadbeef#32
      else if i = 15 then uc.armPc - imageStartAddress
      else uc.gregs i
    -- NZCVQ and GE
    cpsr := uc.armCpsr &&& 0xf80f0000#32
    fpscr := 0 }

/-- `reginfo_init`, in an image at the given address; the context is changed too. -/
def reginfoInit (imageStartAddress : BitVec 32) (testFpExc : Bool) (turns : ℕ) (uc : Ucontext) :
    Option (Reginfo × Ucontext) :=
  (reginfoInitVfp testFpExc uc.ucRegspace turns 0 (registers imageStartAddress uc)).map fun r =>
    (r.1, { uc with ucRegspace := r.2 })

/-- `reginfo_is_eq`: all bytes are equal; there is no padding. -/
def reginfoIsEq (r1 r2 : Reginfo) : Bool := decide (r1 = r2)

/-- `get_risuop`; the ops that are not a `RisuOp` are returned as they are. -/
def getRisuop (ri : Reginfo) : BitVec 32 :=
  let op := ri.faultingInsn &&& 0xf#32
  let key := ri.faultingInsn &&& ~~~0xf#32
  let risukey := if ri.faultingInsnSize = 2 then 0xdee0#32 else 0xe7fe5af0#32
  if key ≠ risukey then -1 else op

/-! ### Blocks -/

/-- A block behind the signal frame: its magic number, and its data as words. -/
structure Block where
  magic : BitVec 32
  data : List (BitVec 32)
  magic_ne : magic ≠ 0
  fits : 8 + 4 * data.length < 2 ^ 32

namespace Block

/-- The words of a block; the size is in bytes. -/
def words (b : Block) : List (BitVec 32) :=
  b.magic :: BitVec.ofNat 32 (8 + 4 * b.data.length) :: b.data

/-- The block for the floating-point registers, with room for all of these. -/
def isVfp (b : Block) : Bool := decide (b.magic = vfpMagic ∧ 65 ≤ b.data.length)

/-- The block is in memory, at an index. -/
def Stands (mem : Regspace) (rs : ℕ) (b : Block) : Prop :=
  ∀ i w, b.words[i]? = some w → mem (rs + i) = w

/-- The index behind a block. -/
def next (rs : ℕ) (b : Block) : ℕ := rs + 2 + b.data.length

def word (b : Block) (i : ℕ) : BitVec 32 := b.data.getD i 0

end Block

/-- What is taken from a block at an index; `none` if there is no block for the registers. -/
def capture (testFpExc : Bool) (mem : Regspace) (ri : Reginfo) : Option (ℕ × Block) → Reginfo × Regspace
  | none => ({ ri with fpregs := fun _ => 0, fpscr := 0 }, mem)
  | some (rs, b) =>
    ({ ri with
        fpregs := fun i => b.word (2 * i + 1) ++ b.word (2 * i)
        fpscr := fpscrOf testFpExc (b.word 64) },
      Function.update mem (rs + 66) (cleared (b.word 64)))

/-- The first block for the registers, with its index. -/
def vfpBlock (rs : ℕ) (bs : List Block) : Option (ℕ × Block) :=
  (places Block.next rs bs).find? fun x => x.2.isVfp

/-! ### The loop over the blocks -/

theorem or_shiftLeft (low high : BitVec 32) :
    low.setWidth 64 ||| high.setWidth 64 <<< 32 = high ++ low := by
  rw [BitVec.append_def, BitVec.shiftLeftZeroExtend_eq, BitVec.or_comm]
  rfl

variable {testFpExc : Bool} {mem : Regspace} {rs turns : ℕ} {b : Block} {bs : List Block} {ri : Reginfo}

namespace Block

theorem Stands.magic (h : b.Stands mem rs) : mem rs = b.magic := h 0 b.magic rfl

/-- The size of the data, in bytes. -/
theorem Stands.size (h : b.Stands mem rs) : (mem (rs + 1) - 8#32).toNat = 4 * b.data.length := by
  have hsize : mem (rs + 1) = BitVec.ofNat 32 (8 + 4 * b.data.length) := h 1 _ rfl
  have hfits := b.fits
  rw [hsize]
  bv_omega

theorem Stands.word (h : b.Stands mem rs) {i : ℕ} (hi : i < b.data.length) :
    mem (rs + 2 + i) = b.word i := by
  rw [Nat.add_assoc]
  apply h (2 + i)
  rw [words, Nat.add_comm 2 i, List.getElem?_cons_succ, List.getElem?_cons_succ, Block.word,
    List.getD_eq_getElem?_getD, List.getElem?_eq_getElem hi, Option.getD_some]

end Block

/-- A block that is not for the registers is skipped. -/
theorem reginfoInitVfp_skip (h : b.Stands mem rs) (hb : b.isVfp = false) :
    reginfoInitVfp testFpExc mem (turns + 1) rs ri =
      reginfoInitVfp testFpExc mem turns (b.next rs) ri := by
  have hskip : rs + 2 + (mem (rs + 1) - 8#32).toNat / 4 = b.next rs := by
    rw [h.size, Nat.mul_div_cancel_left _ (by decide), Block.next]
  have hvfp : b.magic = vfpMagic → (mem (rs + 1) - 8#32).toNat < (32 * 2 + 1) * 4 := by
    intro hmagic
    rw [Block.isVfp, decide_eq_false_iff_not, not_and, not_le] at hb
    have hlen := hb hmagic
    rw [h.size]
    omega
  rw [reginfoInitVfp]
  simp only [h.magic, if_neg b.magic_ne]
  split_ifs with hmagic hsize
  · rw [hskip]
  · exact absurd (hvfp hmagic) hsize
  · rw [hskip]

/-- The block for the registers is taken. -/
theorem reginfoInitVfp_take (h : b.Stands mem rs) (hb : b.isVfp = true) :
    reginfoInitVfp testFpExc mem (turns + 1) rs ri = some (capture testFpExc mem ri (some (rs, b))) := by
  rw [Block.isVfp, decide_eq_true_eq] at hb
  obtain ⟨hmagic, hlen⟩ := hb
  have hsize : ¬(mem (rs + 1) - 8#32).toNat < (32 * 2 + 1) * 4 := by
    rw [h.size]
    omega
  rw [reginfoInitVfp]
  simp only [h.magic, if_neg b.magic_ne, if_pos hmagic, if_neg hsize, capture]
  have hword (i : ℕ) (hi : i < 65) : mem (rs + 2 + i) = b.word i := h.word (by omega)
  have hregs : (fun i : Fin 32 => (mem (rs + 2 + 2 * i)).setWidth 64 |||
      (mem (rs + 2 + 2 * i + 1)).setWidth 64 <<< 32) =
        fun i : Fin 32 => b.word (2 * i + 1) ++ b.word (2 * i) := by
    funext i
    rw [hword (2 * i) (by omega), Nat.add_assoc (rs + 2), hword (2 * i + 1) (by omega), or_shiftLeft]
  rw [hregs, hword 64 (by decide)]

/-- At the end of the blocks there is nothing to take. -/
theorem reginfoInitVfp_end (h : mem rs = 0) :
    reginfoInitVfp testFpExc mem (turns + 1) rs ri = some (capture testFpExc mem ri none) := by
  rw [reginfoInitVfp]
  simp only [h, if_pos]
  rfl

/-- Blocks that are not for the registers are skipped. -/
theorem reginfoInitVfp_skips (h : Chained (Block.Stands mem) Block.next rs bs)
    (hbs : ∀ b ∈ bs, b.isVfp = false) :
    reginfoInitVfp testFpExc mem (bs.length + turns) rs ri =
      reginfoInitVfp testFpExc mem turns (chainEnd Block.next rs bs) ri := by
  have hskip : Chained (fun rs b => b.Stands mem rs ∧ b.isVfp = false) Block.next rs bs :=
    h.mono fun x hx hstands => ⟨hstands, hbs x.2 (mem_of_mem_places hx)⟩
  have hwalk := walk_chained (fun n rs ri => reginfoInitVfp testFpExc mem n rs ri) (fun ri _ => ri)
    (fun _ _ _ _ hb => reginfoInitVfp_skip hb.1 hb.2) hskip turns ri
  rwa [List.foldl_fixed] at hwalk

/-- The block for the registers is taken, behind others. -/
theorem reginfoInitVfp_found (h : Chained (Block.Stands mem) Block.next rs bs)
    (hbs : ∀ b ∈ bs, b.isVfp = false) (hstands : b.Stands mem (chainEnd Block.next rs bs))
    (hb : b.isVfp = true) (hturns : bs.length < turns) :
    reginfoInitVfp testFpExc mem turns rs ri =
      some (capture testFpExc mem ri (some (chainEnd Block.next rs bs, b))) := by
  obtain ⟨n, rfl⟩ := Nat.exists_eq_add_of_lt hturns
  rw [Nat.add_assoc, reginfoInitVfp_skips h hbs, reginfoInitVfp_take hstands hb]

/-- **The loop over the blocks ends, and takes what is in the first block for the registers.** -/
theorem reginfoInitVfp_chained (h : Chained (Block.Stands mem) Block.next rs bs)
    (hend : mem (chainEnd Block.next rs bs) = 0) (hturns : bs.length < turns) :
    reginfoInitVfp testFpExc mem turns rs ri = some (capture testFpExc mem ri (vfpBlock rs bs)) := by
  cases hfind : vfpBlock rs bs with
  | none =>
    obtain ⟨n, rfl⟩ := Nat.exists_eq_add_of_lt hturns
    rw [Nat.add_assoc, reginfoInitVfp_skips h (find_places_eq_none.mp hfind), reginfoInitVfp_end hend]
  | some x =>
    obtain ⟨q, b⟩ := x
    obtain ⟨before, after, rfl, rfl, hb, hbefore⟩ := find_places_eq_some hfind
    rw [chained_append, chained_cons] at h
    rw [List.length_append] at hturns
    exact reginfoInitVfp_found h.1 hbefore h.2.1 hb (by omega)

/-- The loop changes the floating-point registers only. -/
theorem reginfoInitVfp_rest {r : Reginfo × Regspace}
    (h : reginfoInitVfp testFpExc mem turns rs ri = some r) :
    r.1 = { ri with fpregs := r.1.fpregs, fpscr := r.1.fpscr } := by
  induction turns generalizing rs with
  | zero => cases h
  | succ n ih =>
    rw [reginfoInitVfp] at h
    split_ifs at h
    · rw [← Option.some.inj h]
    · exact ih h
    · rw [← Option.some.inj h]
    · exact ih h

/-! ### The same context again -/

theorem cleared_cleared (v : BitVec 32) : cleared (cleared v) = cleared v := by
  rw [cleared, cleared, BitVec.and_assoc, BitVec.and_self]

theorem fpscrOf_cleared (testFpExc : Bool) (v : BitVec 32) :
    fpscrOf testFpExc (cleared v) = cleared (fpscrOf testFpExc v) := by
  have hcomm : cleared v &&& 0xffff9f9f#32 = cleared (v &&& 0xffff9f9f#32) := by
    simp only [cleared]
    ac_rfl
  cases testFpExc with
  | true => exact hcomm
  | false => exact congrArg cleared hcomm

namespace Block

/-- The block with the exception flags cleared. -/
def clear (b : Block) : Block where
  magic := b.magic
  data := b.data.set 64 (cleared (b.word 64))
  magic_ne := b.magic_ne
  fits := by
    rw [List.length_set]
    exact b.fits

theorem isVfp_clear : b.clear.isVfp = b.isVfp := by simp [isVfp, clear]

theorem word_clear {i : ℕ} (hi : i ≠ 64) : b.clear.word i = b.word i := by
  simp [word, clear, hi.symm]

theorem word_clear_fpscr (hb : b.isVfp = true) : b.clear.word 64 = cleared (b.word 64) := by
  have hlen : 64 < b.data.length := by
    rw [isVfp, decide_eq_true_eq] at hb
    omega
  simp [word, clear, hlen]

theorem Stands.update (h : b.Stands mem rs) {k : ℕ} (hk : k < rs ∨ b.next rs ≤ k) (w : BitVec 32) :
    b.Stands (Function.update mem k w) rs := by
  intro i v hv
  have hi : i < b.words.length := (List.getElem?_eq_some_iff.mp hv).1
  simp only [words, List.length_cons] at hi
  rw [next] at hk
  rw [Function.update_of_ne (by omega), h i v hv]

theorem Stands.clear (h : b.Stands mem rs) :
    b.clear.Stands (Function.update mem (rs + 66) (cleared (b.word 64))) rs := by
  intro i v hv
  have hwords : b.clear.words = b.words.set 66 (cleared (b.word 64)) := by
    simp [words, Block.clear]
  rw [hwords, List.getElem?_set] at hv
  split_ifs at hv with hi hlen
  · rw [← hi, Function.update_self]
    exact Option.some.inj hv
  · rw [Function.update_of_ne (by omega), h i v hv]

end Block

theorem le_chainEnd : rs ≤ chainEnd Block.next rs bs := by
  induction bs generalizing rs with
  | nil => exact Nat.le_refl rs
  | cons b bs ih => exact Nat.le_trans (by rw [Block.next]; omega) (@ih (b.next rs))

/-- A block ends before the blocks end. -/
theorem next_le_chainEnd {x : ℕ × Block} (hx : x ∈ places Block.next rs bs) :
    x.2.next x.1 ≤ chainEnd Block.next rs bs := by
  induction bs generalizing rs with
  | nil => cases hx
  | cons b bs ih =>
    rcases List.mem_cons.mp hx with rfl | hx
    · exact le_chainEnd
    · exact ih hx

/-- What is captured the second time: the same registers, and no exception flags. -/
theorem capture_again (h : Chained (Block.Stands mem) Block.next rs bs)
    (hend : mem (chainEnd Block.next rs bs) = 0) (hturns : bs.length < turns) :
    reginfoInitVfp testFpExc (capture testFpExc mem ri (vfpBlock rs bs)).2 turns rs ri =
      some ({ (capture testFpExc mem ri (vfpBlock rs bs)).1 with
        fpscr := cleared (capture testFpExc mem ri (vfpBlock rs bs)).1.fpscr },
        (capture testFpExc mem ri (vfpBlock rs bs)).2) := by
  cases hfind : vfpBlock rs bs with
  | none =>
    have hwalk := @reginfoInitVfp_chained testFpExc mem rs turns bs ri h hend hturns
    rw [hfind] at hwalk
    simpa [capture, cleared] using hwalk
  | some x =>
    obtain ⟨q, b⟩ := x
    obtain ⟨before, after, rfl, rfl, hb, hbefore⟩ := find_places_eq_some hfind
    rw [chained_append, chained_cons] at h
    rw [List.length_append] at hturns
    have hchain : Chained (Block.Stands (capture testFpExc mem ri
        (some (chainEnd Block.next rs before, b))).2) Block.next rs before :=
      h.1.mono fun x hx hstands => hstands.update (Or.inr (by have := next_le_chainEnd hx; omega)) _
    rw [reginfoInitVfp_found hchain hbefore h.2.1.clear (Block.isVfp_clear.trans hb) (by omega)]
    have hregs (i : Fin 32) : b.clear.word (2 * i + 1) ++ b.clear.word (2 * i) =
        b.word (2 * i + 1) ++ b.word (2 * i) := by
      rw [Block.word_clear (by omega), Block.word_clear (by omega)]
    simp only [capture, hregs, Block.word_clear_fpscr hb, fpscrOf_cleared, cleared_cleared,
      Function.update_idem]

/-! ### The record of a signal frame -/

/-- What `reginfo_init` makes of a context with a chain of blocks: the registers of the first block that has
them, or zeros; and the context is left as it was, but for the exception flags of this block. -/
structure Captured (start : BitVec 32) (testFpExc : Bool) (uc : Ucontext) (bs : List Block) (ri : Reginfo)
    (uc' : Ucontext) : Prop where
  rest : ri = { registers start uc with fpregs := ri.fpregs, fpscr := ri.fpscr }
  none : (∀ b ∈ bs, b.isVfp = false) → (∀ i, ri.fpregs i = 0) ∧ ri.fpscr = 0 ∧ uc' = uc
  first : ∀ before b after, bs = before ++ b :: after → (∀ c ∈ before, c.isVfp = false) →
    b.isVfp = true →
      (∀ i : Fin 32, ri.fpregs i = b.word (2 * i + 1) ++ b.word (2 * i)) ∧
      ri.fpscr = fpscrOf testFpExc (b.word 64) ∧
      uc' = { uc with
        ucRegspace := Function.update uc.ucRegspace (chainEnd Block.next 0 before + 66)
          (cleared (b.word 64)) }

theorem captured_capture (start : BitVec 32) (uc : Ucontext) :
    Captured start testFpExc uc bs
      (capture testFpExc uc.ucRegspace (registers start uc) (vfpBlock 0 bs)).1
      { uc with
        ucRegspace := (capture testFpExc uc.ucRegspace (registers start uc) (vfpBlock 0 bs)).2 } where
  rest := by cases vfpBlock 0 bs <;> rfl
  none := by
    intro hbs
    rw [vfpBlock, find_places_eq_none.mpr hbs]
    exact ⟨fun _ => rfl, rfl, rfl⟩
  first := by
    rintro before b after rfl hbefore hb
    have hfind : vfpBlock 0 (before ++ b :: after) = some (chainEnd Block.next 0 before, b) := by
      rw [vfpBlock, places_append, List.find?_append, find_places_eq_none.mpr hbefore]
      simp [places, hb]
    rw [hfind]
    exact ⟨fun _ => rfl, rfl, rfl⟩

/-- **A context with a chain of blocks is captured, and a second time it is captured alike, but for the
exception flags.** -/
theorem reginfoInit_captures {uc : Ucontext} (h : Chained (Block.Stands uc.ucRegspace) Block.next 0 bs)
    (hend : uc.ucRegspace (chainEnd Block.next 0 bs) = 0) (hturns : bs.length < turns) (start : BitVec 32)
    (testFpExc : Bool) :
    ∃ ri uc', reginfoInit start testFpExc turns uc = some (ri, uc') ∧
      Captured start testFpExc uc bs ri uc' ∧
      reginfoInit start testFpExc turns uc' = some ({ ri with fpscr := cleared ri.fpscr }, uc') := by
  refine ⟨_, _, ?_, captured_capture start uc, ?_⟩
  · rw [reginfoInit, reginfoInitVfp_chained h hend hturns]
    rfl
  · rw [reginfoInit]
    -- the registers come from what the capture leaves alone
    have hagain := @capture_again testFpExc uc.ucRegspace 0 turns bs (registers start uc) h hend hturns
    exact congrArg (Option.map _) hagain

/-! ### Blocks laid out in memory -/

/-- The blocks one behind another, and zeros behind them. -/
def regspaceOf (bs : List Block) : Regspace := fun i => (bs.flatMap Block.words).getD i 0

theorem chainEnd_eq_length : chainEnd Block.next rs bs = rs + (bs.flatMap Block.words).length := by
  induction bs generalizing rs with
  | nil => rfl
  | cons b bs ih =>
    have hnext : chainEnd Block.next rs (b :: bs) = chainEnd Block.next (b.next rs) bs := rfl
    rw [hnext, ih, List.flatMap_cons, List.length_append]
    simp only [Block.next, Block.words, List.length_cons]
    omega

theorem chained_of_words (before : List (BitVec 32))
    (h : ∀ i w, (before ++ bs.flatMap Block.words)[i]? = some w → mem i = w) :
    Chained (Block.Stands mem) Block.next before.length bs := by
  induction bs generalizing before with
  | nil => exact chained_nil
  | cons b bs ih =>
    rw [chained_cons]
    constructor
    · intro i w hw
      apply h
      have hi : i < b.words.length := (List.getElem?_eq_some_iff.mp hw).1
      rw [List.getElem?_append_right (Nat.le_add_right _ _), Nat.add_sub_cancel_left, List.flatMap_cons,
        List.getElem?_append_left hi, hw]
    · have hlen : b.next before.length = (before ++ b.words).length := by
        simp only [Block.next, Block.words, List.length_append, List.length_cons]
        omega
      rw [hlen]
      apply ih
      simpa only [List.append_assoc, ← List.flatMap_cons] using h

theorem chained_regspaceOf (bs : List Block) :
    Chained (Block.Stands (regspaceOf bs)) Block.next 0 bs := by
  apply chained_of_words []
  intro i w hw
  rw [regspaceOf, List.getD_eq_getElem?_getD]
  rw [List.nil_append] at hw
  rw [hw, Option.getD_some]

theorem regspaceOf_end (bs : List Block) : regspaceOf bs (chainEnd Block.next 0 bs) = 0 := by
  rw [chainEnd_eq_length, Nat.zero_add, regspaceOf, List.getD_eq_getElem?_getD,
    List.getElem?_eq_none (Nat.le_refl _), Option.getD_none]

/-- A block of another kind, and one of registers that count up, with every exception flag set. -/
def twoBlocks : List Block :=
  [⟨0x12ef842a#32, List.replicate 38 1, by decide, by decide⟩,
    ⟨vfpMagic, (List.range 64).map (BitVec.ofNat 32) ++ 0x1f#32 :: List.replicate 5 0, by decide, by decide⟩]

theorem reginfoInit_captures_twoBlocks :
    ∃ ri uc',
      reginfoInit 0 true 3 ⟨fun _ => 0, 0, fun _ => 0, regspaceOf twoBlocks⟩ = some (ri, uc') ∧
      Captured 0 true ⟨fun _ => 0, 0, fun _ => 0, regspaceOf twoBlocks⟩ twoBlocks ri uc' ∧
      reginfoInit 0 true 3 uc' = some ({ ri with fpscr := cleared ri.fpscr }, uc') :=
  reginfoInit_captures (chained_regspaceOf twoBlocks) (regspaceOf_end twoBlocks) (by decide) 0 true

end Risu.Arm
