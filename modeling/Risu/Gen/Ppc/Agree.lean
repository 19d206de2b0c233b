import Risu.Gen.Ppc.Setup
import Risu.Gen.Ppc.RunsOnce

/-!
# What the setup makes equal

Two processors of one kind execute the same code.  What is still different between them is a set of
registers and addresses, and the setup makes it smaller.

* `Unsettled`, `AgreeBut` — what may be different;
* `Move`, `Advances`, `Settles` — code that both execute word by word;
* `settles_writeMovRi` and so on — what each part of the setup settles;
* `settles_writeRandomRegisterData` — after all of it nothing is different.
-/

namespace Risu.Gen.Ppc

open Lib

variable {n : ℕ}

/-! ### What may be different -/

/-- The registers and addresses that may hold different values; the stack pointer is none of them. -/
structure Unsettled (n : ℕ) where
  gpr : Set Reg
  fpr : Set Reg
  cr : Prop
  xer : Prop
  ctr : Prop
  lr : Prop
  mq : Prop
  mem : Set (BitVec n)
  one : 1#5 ∉ gpr

namespace Unsettled

variable (U V W : Unsettled n)

/-- Nothing is different. -/
def none : Unsettled n := ⟨∅, ∅, False, False, False, False, False, ∅, Set.notMem_empty _⟩

def settleGpr (r : Reg) : Unsettled n :=
  { U with gpr := U.gpr \ {r}, one := fun h => U.one h.1 }

def settleFpr (r : Reg) : Unsettled n := { U with fpr := U.fpr \ {r} }

def settleCr : Unsettled n := { U with cr := False }

def settleSpr : Spr → Unsettled n
  | .xer => { U with xer := False }
  | .lr => { U with lr := False }
  | .ctr => { U with ctr := False }

def settleMq : Unsettled n := { U with mq := False }

def settleMem (s : Set (BitVec n)) : Unsettled n := { U with mem := U.mem \ s }

/-- Less is unsettled. -/
structure Le : Prop where
  gpr : U.gpr ⊆ V.gpr
  fpr : U.fpr ⊆ V.fpr
  cr : U.cr → V.cr
  xer : U.xer → V.xer
  ctr : U.ctr → V.ctr
  lr : U.lr → V.lr
  mq : U.mq → V.mq
  mem : U.mem ⊆ V.mem

variable {U V W}

theorem Le.refl (U : Unsettled n) : U.Le U :=
  ⟨subset_rfl, subset_rfl, id, id, id, id, id, subset_rfl⟩

theorem Le.trans (h : U.Le V) (h' : V.Le W) : U.Le W :=
  ⟨h.gpr.trans h'.gpr, h.fpr.trans h'.fpr, h'.cr ∘ h.cr, h'.xer ∘ h.xer, h'.ctr ∘ h.ctr,
    h'.lr ∘ h.lr, h'.mq ∘ h.mq, h.mem.trans h'.mem⟩

end Unsettled

/-- The addresses of some bytes in a row. -/
def span (p : BitVec n) (len : ℕ) : Set (BitVec n) := {x | (x - p).toNat < len}

/-- No address in common. -/
def Apart (s t : Set (BitVec n)) : Prop := ∀ x ∈ s, x ∉ t

theorem Apart.symm {s t : Set (BitVec n)} (h : Apart s t) : Apart t s := fun x hx hx' => h x hx' hx

theorem Apart.subset {s s' t : Set (BitVec n)} (h : Apart s t) (hsub : s' ⊆ s) : Apart s' t :=
  fun x hx => h x (hsub hx)

theorem span_subset (p : BitVec n) {k len len' : ℕ} (h : k + len ≤ len') :
    span (p + BitVec.ofNat n k) len ⊆ span p len' := by
  intro x hx
  have hsum : x - p = x - (p + BitVec.ofNat n k) + BitVec.ofNat n k := by
    rw [← BitVec.sub_sub, BitVec.sub_add_cancel]
  have hx : (x - (p + BitVec.ofNat n k)).toNat < len := hx
  show (x - p).toNat < len'
  rw [hsum, BitVec.toNat_add, BitVec.toNat_ofNat]
  calc ((x - (p + BitVec.ofNat n k)).toNat + k % 2 ^ n) % 2 ^ n
      ≤ (x - (p + BitVec.ofNat n k)).toNat + k % 2 ^ n := Nat.mod_le _ _
    _ ≤ (x - (p + BitVec.ofNat n k)).toNat + k := Nat.add_le_add_left (Nat.mod_le _ _) _
    _ < len' := by omega

theorem span_add_subset (p : BitVec n) (k len : ℕ) :
    span p (k + len) ⊆ span p k ∪ span (p + BitVec.ofNat n k) len := by
  intro x hx
  have hx : (x - p).toNat < k + len := hx
  by_cases hk : k ≤ (x - p).toNat
  · right
    show (x - (p + BitVec.ofNat n k)).toNat < len
    rw [sub_add_ofNat_toNat x p hk]
    omega
  · exact .inl (not_le.mp hk)

/-- Bytes that begin behind others and do not reach around to them. -/
theorem span_apart {p q : BitVec n} {len len' : ℕ} (h : len ≤ (q - p).toNat)
    (h' : (q - p).toNat + len' ≤ 2 ^ n) : Apart (span p len) (span q len') := by
  intro x (hx : (x - p).toNat < len) (hx' : (x - q).toNat < len')
  have hsum : x - p = x - q + (q - p) := by grind
  rw [hsum, BitVec.toNat_add, Nat.mod_eq_of_lt (by omega)] at hx
  omega

/-- Two processors of one kind, their stack pointer, and the code they execute: its place and its
bytes.  It is not in the 16 bytes that the setup uses. -/
structure Ground (o : Order) (n : ℕ) where
  proc : Processor o n
  sp : BitVec n
  code : Set (BitVec n)
  text : BitVec n → Byte
  slot_free : Apart (span (sp + 16) 16) code

variable {o : Order} {G : Ground o n} {U V W : Unsettled n} {m a m' a' : Core n G.proc.Rest}

/-- The two differ in what is unsettled at most, and the code is in place. -/
structure AgreeBut (G : Ground o n) (U : Unsettled n) (m a : Core n G.proc.Rest) : Prop where
  pc : m.cpu.pc = a.cpu.pc
  sp : m.cpu.gpr 1#5 = G.sp
  gpr : ∀ r, r ∉ U.gpr → m.cpu.gpr r = a.cpu.gpr r
  fpr : ∀ r, r ∉ U.fpr → m.cpu.fpr r = a.cpu.fpr r
  cr : ¬ U.cr → m.cpu.cr = a.cpu.cr
  xer : ¬ U.xer → m.cpu.xer = a.cpu.xer
  ctr : ¬ U.ctr → m.cpu.ctr = a.cpu.ctr
  lr : ¬ U.lr → m.cpu.lr = a.cpu.lr
  mq : ¬ U.mq → m.mq = a.mq
  mem : ∀ x, x ∉ U.mem → m.cpu.mem x = a.cpu.mem x
  fpscr : m.fpscr = a.fpscr
  rest : m.rest = a.rest
  text : ∀ x ∈ G.code, m.cpu.mem x = G.text x ∧ a.cpu.mem x = G.text x

namespace AgreeBut

theorem mono (h : AgreeBut G U m a) (hle : U.Le V) : AgreeBut G V m a :=
  { h with
    gpr := fun r hr => h.gpr r fun hu => hr (hle.gpr hu)
    fpr := fun r hr => h.fpr r fun hu => hr (hle.fpr hu)
    cr := fun hn => h.cr fun hu => hn (hle.cr hu)
    xer := fun hn => h.xer fun hu => hn (hle.xer hu)
    ctr := fun hn => h.ctr fun hu => hn (hle.ctr hu)
    lr := fun hn => h.lr fun hu => hn (hle.lr hu)
    mq := fun hn => h.mq fun hu => hn (hle.mq hu)
    mem := fun x hx => h.mem x fun hu => hx (hle.mem hu) }

/-- Two processors that differ in nothing are equal. -/
theorem eq (h : AgreeBut G .none m a) : m = a := by
  obtain ⟨⟨pc, gpr, fpr, lr, ctr, xer, cr, mem⟩, mq, fpscr, rest⟩ := m
  obtain ⟨⟨pc', gpr', fpr', lr', ctr', xer', cr', mem'⟩, mq', fpscr', rest'⟩ := a
  obtain rfl : pc = pc' := h.pc
  obtain rfl : gpr = gpr' := funext fun r => h.gpr r (Set.notMem_empty r)
  obtain rfl : fpr = fpr' := funext fun r => h.fpr r (Set.notMem_empty r)
  obtain rfl : lr = lr' := h.lr id
  obtain rfl : ctr = ctr' := h.ctr id
  obtain rfl : xer = xer' := h.xer id
  obtain rfl : cr = cr' := h.cr id
  obtain rfl : mem = mem' := funext fun x => h.mem x (Set.notMem_empty x)
  obtain rfl : mq = mq' := h.mq id
  obtain rfl : fpscr = fpscr' := h.fpscr
  obtain rfl : rest = rest' := h.rest
  rfl

/-! ### One register or address -/

theorem next (h : AgreeBut G U m a) : AgreeBut G U m.next a.next :=
  { h with pc := congrArg (· + 4) h.pc }

/-- Both registers receive the same value. -/
theorem setGpr (h : AgreeBut G U m a) {r : Reg} (hr : r ≠ 1#5) {v v' : BitVec n} (hv : v = v') :
    AgreeBut G (U.settleGpr r) (m.withCpu (m.cpu.setGpr r v)) (a.withCpu (a.cpu.setGpr r v')) :=
  { h with
    sp := by
      show Function.update m.cpu.gpr r v 1#5 = G.sp
      rw [Function.update_of_ne hr.symm, h.sp]
    gpr := fun s hs => by
      show Function.update m.cpu.gpr r v s = Function.update a.cpu.gpr r v' s
      by_cases hsr : s = r
      · rw [hsr, Function.update_self, Function.update_self, hv]
      · rw [Function.update_of_ne hsr, Function.update_of_ne hsr]
        exact h.gpr s fun hu => hs ⟨hu, hsr⟩ }

theorem setFpr (h : AgreeBut G U m a) (r : Reg) {v v' : BitVec 64} (hv : v = v') :
    AgreeBut G (U.settleFpr r) (m.withCpu (m.cpu.setFpr r v)) (a.withCpu (a.cpu.setFpr r v')) :=
  { h with
    fpr := fun s hs => by
      show Function.update m.cpu.fpr r v s = Function.update a.cpu.fpr r v' s
      by_cases hsr : s = r
      · rw [hsr, Function.update_self, Function.update_self, hv]
      · rw [Function.update_of_ne hsr, Function.update_of_ne hsr]
        exact h.fpr s fun hu => hs ⟨hu, hsr⟩ }

theorem setSpr (h : AgreeBut G U m a) (spr : Spr) {v v' : BitVec n} (hv : v = v') :
    AgreeBut G (U.settleSpr spr) (m.withCpu (m.cpu.setSpr spr v))
      (a.withCpu (a.cpu.setSpr spr v')) := by
  cases spr with
  | xer => exact { h with xer := fun _ => hv }
  | lr => exact { h with lr := fun _ => hv }
  | ctr => exact { h with ctr := fun _ => hv }

/-- The same bytes are stored at the same address, beside the code. -/
theorem store (h : AgreeBut G U m a) (p : BitVec n) (bs : List Byte)
    (hfree : Apart (span p bs.length) G.code) :
    AgreeBut G (U.settleMem (span p bs.length)) (m.withCpu (m.cpu.setMem (Lib.store m.cpu.mem p bs)))
      (a.withCpu (a.cpu.setMem (Lib.store a.cpu.mem p bs))) :=
  { h with
    mem := fun x hx => by
      show bs[(x - p).toNat]?.getD (m.cpu.mem x) = bs[(x - p).toNat]?.getD (a.cpu.mem x)
      by_cases hlt : (x - p).toNat < bs.length
      · rw [List.getElem?_eq_getElem hlt]
        rfl
      · rw [h.mem x fun hu => hx ⟨hu, hlt⟩]
    text := fun x hx => by
      have hnot : ¬ (x - p).toNat < bs.length := fun hlt => hfree x hlt hx
      have hkeep : ∀ y : Byte, bs[(x - p).toNat]?.getD y = y := fun y => by
        rw [List.getElem?_eq_none (not_lt.mp hnot), Option.getD_none]
      exact ⟨(hkeep _).trans (h.text x hx).1, (hkeep _).trans (h.text x hx).2⟩ }

/-- Bytes that are settled are loaded alike. -/
theorem load (h : AgreeBut G U m a) (hmem : U.mem = ∅) (p : BitVec n) (len : ℕ) :
    Lib.load m.cpu.mem p len = Lib.load a.cpu.mem p len :=
  load_congr (fun x => h.mem (p + x) (by rw [hmem]; exact Set.notMem_empty _)) len

end AgreeBut

/-! ### One word -/

/-- Both execute the word, or the processor does not have it and both are led past it. -/
inductive Move (P : Processor o n) (w : Word) (m a : Core n P.Rest) :
    Core n P.Rest → Core n P.Rest → Prop
  | both {m' a' : Core n P.Rest} : P.step w m = some m' → P.step w a = some a' → Move P w m a m' a'
  | skip : P.step w m = none → P.step w a = none → Move P w m a m.next a.next

/-- A word of the setup after which less may be different. -/
structure Advances (G : Ground o n) (w : Word) (U V : Unsettled n) : Prop where
  decodes : (decodeSetup w).isSome = true
  moves : ∀ m a, AgreeBut G U m a → ∃ m' a', Move G.proc w m a m' a' ∧ AgreeBut G V m' a' ∧
    m'.cpu.pc = m.cpu.pc + 4

theorem Advances.mono {w : Word} (h : Advances G w V W) (hle : U.Le V) : Advances G w U W where
  decodes := h.decodes
  moves m a hma := h.moves m a (hma.mono hle)

/-- Code of the setup after which less may be different. -/
inductive Settles (G : Ground o n) : List Word → Unsettled n → Unsettled n → Prop
  | nil {U V : Unsettled n} : U.Le V → Settles G [] U V
  | cons {w : Word} {ws : List Word} {U V W : Unsettled n} :
      Advances G w U V → Settles G ws V W → Settles G (w :: ws) U W

namespace Settles

variable {ws vs : List Word}

theorem single {w : Word} (h : Advances G w U V) : Settles G [w] U V := .cons h (.nil (.refl V))

theorem mono_left (h : Settles G ws V W) (hle : U.Le V) : Settles G ws U W := by
  cases h with
  | nil h => exact .nil (hle.trans h)
  | cons hw h => exact .cons (hw.mono hle) h

theorem mono_right (h : Settles G ws U V) (hle : V.Le W) : Settles G ws U W := by
  induction h with
  | nil h => exact .nil (h.trans hle)
  | cons hw _ ih => exact .cons hw (ih hle)

theorem append (h : Settles G ws U V) (h' : Settles G vs V W) : Settles G (ws ++ vs) U W := by
  induction h with
  | nil hle => exact h'.mono_left hle
  | cons hw _ ih => exact .cons hw (ih h')

/-- A loop over the registers, one turn after the other. -/
theorem forRegs (body : ℕ → List Word) (V : ℕ → Unsettled n)
    (h : ∀ i < 32, Settles G (body i) (V i) (V (i + 1))) : Settles G (forRegs body) (V 0) (V 32) := by
  have hturns : ∀ k ≤ 32, Settles G ((List.range k).flatMap body) (V 0) (V k) := by
    intro k
    induction k with
    | zero => exact fun _ => .nil (.refl _)
    | succ k ih =>
      intro hk
      rw [List.range_succ, List.flatMap_append, List.flatMap_singleton]
      exact (ih (by omega)).append (h k (by omega))
  exact hturns 32 (le_refl 32)

end Settles

/-! ### The instructions -/

/-- An instruction that the processor has. -/
theorem Advances.of_present {w : Word} {i : SetupInsn} (hw : decodeSetup w = some i)
    {f : Core n G.proc.Rest → Core n G.proc.Rest}
    (hf : ∀ m, perform o G.proc.units i m = some (f m))
    (h : ∀ m a, AgreeBut G U m a → AgreeBut G V (f m) (f a) ∧ (f m).cpu.pc = m.cpu.pc + 4) :
    Advances G w U V where
  decodes := by rw [hw]; rfl
  moves m a hma :=
    ⟨f m, f a, .both ((G.proc.step_setup w i m hw).trans (hf m))
      ((G.proc.step_setup w i a hw).trans (hf a)), h m a hma⟩

/-- An instruction that the processor does not have. -/
theorem Advances.of_absent {w : Word} {i : SetupInsn} (hw : decodeSetup w = some i)
    (hf : ∀ m, perform o G.proc.units i m = none) (hle : U.Le V) : Advances G w U V where
  decodes := by rw [hw]; rfl
  moves m a hma :=
    ⟨m.next, a.next, .skip ((G.proc.step_setup w i m hw).trans (hf m))
      ((G.proc.step_setup w i a hw).trans (hf a)), (hma.mono hle).next, rfl⟩

theorem decodeSetup_base {w : Word} {i : Insn} (h : decode w = some i) :
    decodeSetup w = some (.base i) := by
  rw [decodeSetup, h]

/-- An instruction that every processor has. -/
theorem Advances.of_base {w : Word} {i : Insn} (hw : decode w = some i)
    (h : ∀ m a, AgreeBut G U m a → AgreeBut G V (m.withCpu (exec o i m.cpu))
      (a.withCpu (exec o i a.cpu)) ∧ (exec o i m.cpu).pc = m.cpu.pc + 4) : Advances G w U V :=
  .of_present (decodeSetup_base hw) (f := fun m => m.withCpu (exec o i m.cpu)) (fun _ => rfl) h

/-- The base of an address: no register, or one that is settled. -/
theorem AgreeBut.base (h : AgreeBut G U m a) {ra : Reg} (hra : ra ∉ U.gpr) :
    m.cpu.base ra = a.cpu.base ra := by
  rw [Cpu.base, Cpu.base, h.gpr ra hra]

theorem advances_li {w : Word} {rt : Reg} {d : BitVec 16} (hw : decode w = some (.addi rt 0#5 d))
    (hrt : rt ≠ 1#5) : Advances G w U (U.settleGpr rt) :=
  .of_base hw fun _ _ h => ⟨(h.setGpr hrt rfl).next, rfl⟩

theorem advances_lis {w : Word} {rt : Reg} {d : BitVec 16} (hw : decode w = some (.addis rt 0#5 d))
    (hrt : rt ≠ 1#5) : Advances G w U (U.settleGpr rt) :=
  .of_base hw fun _ _ h => ⟨(h.setGpr hrt rfl).next, rfl⟩

theorem advances_ori {w : Word} {ra rs : Reg} {d : BitVec 16} (hw : decode w = some (.ori ra rs d))
    (hra : ra ≠ 1#5) (hrs : rs ∉ U.gpr) : Advances G w U (U.settleGpr ra) :=
  .of_base hw fun _ _ h => ⟨(h.setGpr hra (by rw [h.gpr rs hrs])).next, rfl⟩

theorem advances_mtspr {w : Word} {spr : Spr} {rs : Reg} (hw : decode w = some (.mtspr spr rs))
    (hrs : rs ∉ U.gpr) : Advances G w U (U.settleSpr spr) :=
  .of_base hw fun _ _ h => ⟨(h.setSpr spr (h.gpr rs hrs)).next, by cases spr <;> rfl⟩

theorem crMask_all : crMask 255#8 = BitVec.allOnes 32 := by decide

theorem advances_mtcrf {w : Word} {rs : Reg} (hw : decode w = some (.mtcrf 255#8 rs))
    (hrs : rs ∉ U.gpr) : Advances G w U U.settleCr := by
  refine .of_base hw fun m a h => ⟨{ h.next with cr := fun _ => ?_ }, rfl⟩
  show m.cpu.cr &&& ~~~crMask 255#8 ||| (m.cpu.gpr rs).setWidth 32 &&& crMask 255#8 =
    a.cpu.cr &&& ~~~crMask 255#8 ||| (a.cpu.gpr rs).setWidth 32 &&& crMask 255#8
  rw [crMask_all, h.gpr rs hrs]
  simp

/-- The branch to the next instruction. -/
theorem advances_bl {w : Word} (hw : decode w = some (.b 1#24 true)) :
    Advances G w U (U.settleSpr .lr) := by
  have hfour : (1#24 ++ 0#2).signExtend n = 4 := by
    rw [show 1#24 ++ 0#2 = 4#26 from rfl, BitVec.signExtend_eq_setWidth_of_msb_false (by decide)]
    exact BitVec.eq_of_toNat_eq (BitVec.toNat_setWidth n 4#26)
  have hexec : ∀ s : Cpu n, exec o (.b 1#24 true) s = (s.setSpr .lr (s.pc + 4)).next := fun s => by
    rw [exec, hfour]
    rfl
  refine .of_base hw fun m a h => ?_
  rw [hexec, hexec]
  exact ⟨(h.setSpr .lr (congrArg (· + 4) h.pc)).next, rfl⟩

theorem advances_lfd {w : Word} {frt ra : Reg} {d : BitVec 16} (hw : decode w = some (.lfd frt ra d))
    (hra : ra ∉ U.gpr) (hmem : U.mem = ∅) : Advances G w U (U.settleFpr frt) :=
  .of_base hw fun m a h => ⟨(h.setFpr frt (by rw [h.base hra, h.load hmem])).next, rfl⟩

/-- A word stored above the stack pointer. -/
theorem advances_stw {w : Word} {rs : Reg} {d : BitVec 16} {p : BitVec n}
    (hw : decode w = some (.stw rs 1#5 d)) (hrs : rs ∉ U.gpr) (hp : G.sp + d.signExtend n = p)
    (hfree : Apart (span p 4) G.code) : Advances G w U (U.settleMem (span p 4)) := by
  refine .of_base hw fun m a h => ?_
  have hm : m.cpu.base 1#5 + d.signExtend n = p := by rw [← hp, ← h.sp]; rfl
  have ha : a.cpu.base 1#5 + d.signExtend n = p := by rw [← h.base U.one, hm]
  have hstore := h.store p (bytesOf o 4 ((m.cpu.gpr rs).setWidth 32).toNat)
    (by rw [bytesOf_length]; exact hfree)
  rw [bytesOf_length] at hstore
  rw [exec, exec, hm, ha, ← h.gpr rs hrs]
  exact ⟨hstore.next, rfl⟩

theorem advances_mtmq {w : Word} {rs : Reg} (hw : decodeSetup w = some (.mtmq rs)) (hrs : rs ∉ U.gpr)
    (hmq : U.mq → G.proc.units.hasMq = true) : Advances G w U U.settleMq := by
  by_cases hhas : G.proc.units.hasMq = true
  · refine .of_present hw (f := fun m => { m with mq := m.cpu.gpr rs }.next)
      (fun _ => by rw [perform, if_pos hhas]) fun m a h => ⟨AgreeBut.next ?_, rfl⟩
    exact { h with mq := fun _ => h.gpr rs hrs }
  · refine .of_absent hw (fun _ => by rw [perform, if_neg hhas]) ?_
    exact { Unsettled.Le.refl U with mq := fun hu => hhas (hmq hu) }

/-- An instruction of the vector unit, if there is one. -/
theorem advances_vector {w : Word} {i : SetupInsn} (hw : decodeSetup w = some i)
    {f : VectorUnit n G.proc.Rest → Core n G.proc.Rest → G.proc.Rest}
    (hf : ∀ m, perform o G.proc.units i m =
      G.proc.units.vector.map fun v => { m with rest := f v m }.next)
    (h : ∀ v m a, AgreeBut G U m a → f v m = f v a) : Advances G w U U := by
  cases hv : G.proc.units.vector with
  | none => exact .of_absent hw (fun m => by rw [hf, hv]; rfl) (.refl U)
  | some v =>
    refine .of_present hw (f := fun m => { m with rest := f v m }.next)
      (fun m => by rw [hf, hv]; rfl) fun m a hma => ⟨AgreeBut.next ?_, rfl⟩
    exact { hma with rest := h v m a hma }

/-! ### The parts of the setup -/

theorem Unsettled.settleGpr_twice (r : Reg) : ((U.settleGpr r).settleGpr r).Le (U.settleGpr r) :=
  { Unsettled.Le.refl (U.settleGpr r) with gpr := Set.sdiff_subset }

theorem Unsettled.notMem_settleGpr (r : Reg) : r ∉ (U.settleGpr r).gpr := fun h => h.2 rfl

theorem settles_writeMovRi {rd : Reg} (hrd : rd ≠ 1#5) (imm : ℤ) :
    Settles G (writeMovRi rd imm) U (U.settleGpr rd) := by
  rw [writeMovRi]
  by_cases hhigh : needsHigh (uv imm)
  · rw [if_pos hhigh]
    refine .cons (advances_lis (decode_lis rd _) hrd) ?_
    by_cases hlow : uv imm &&& 0xffff#64 = 0
    · rw [if_neg (not_not.mpr hlow)]
      exact .nil (.refl _)
    · rw [if_pos hlow]
      exact (Settles.single (advances_ori (decode_ori rd rd _) hrd
        (Unsettled.notMem_settleGpr rd))).mono_right (Unsettled.settleGpr_twice rd)
  · rw [if_neg hhigh]
    exact .single (advances_li (decode_li rd _) hrd)

/-- What a store settles: `r20` and some bytes. -/
def Unsettled.afterStore (U : Unsettled n) (p : BitVec n) (len : ℕ) : Unsettled n :=
  (U.settleGpr 20#5).settleMem (span p len)

theorem Unsettled.afterStore_twice (U : Unsettled n) (p : BitVec n) (k len : ℕ) :
    ((U.afterStore p k).afterStore (p + BitVec.ofNat n k) len).Le (U.afterStore p (k + len)) :=
  { Unsettled.Le.refl (U.afterStore p (k + len)) with
    gpr := Set.sdiff_subset
    mem := fun _ hx => ⟨hx.1.1, fun h => (span_add_subset p k len h).elim hx.1.2 hx.2⟩ }

theorem setWidth_uv_ofNat {k : ℕ} (hk : k < 2 ^ 15) : (uv k).setWidth 16 = BitVec.ofNat 16 k := by
  apply BitVec.eq_of_toNat_eq
  rw [uv_natCast (by omega), BitVec.toNat_setWidth, BitVec.toNat_ofNat, BitVec.toNat_ofNat]
  omega

/-- The address of a slot above the stack pointer. -/
theorem slotWord_free (G : Ground o n) {k len : ℕ} (hk : 16 ≤ k) (hk' : k + len ≤ 32) :
    Apart (span (G.sp + BitVec.ofNat n k) len) G.code := by
  have hsum : G.sp + BitVec.ofNat n k = G.sp + 16 + BitVec.ofNat n (k - 16) := by
    rw [BitVec.add_assoc]
    congr 1
    rw [show (16 : BitVec n) = BitVec.ofNat n 16 from rfl, ← BitVec.ofNat_add]
    congr 1
    omega
  rw [hsum]
  exact G.slot_free.subset (span_subset (G.sp + 16) (by omega))

theorem settles_writeStore32 (hn : 16 ≤ n) (im imm : ℤ) {k : ℕ} (himm : imm = k) (hk : 16 ≤ k)
    (hk' : k + 4 ≤ 32) :
    Settles G (writeStore32 im imm) U (U.afterStore (G.sp + BitVec.ofNat n k) 4) := by
  subst himm
  have hword : decode (insn32 ((0x24#64 <<< 26) ||| (num 20#5 <<< 21) ||| (num 1#5 <<< 16) |||
      (uv k &&& 0xffff#64))) = some (.stw 20#5 1#5 (BitVec.ofNat 16 k)) := by
    rw [and_ffff, setWidth_uv_ofNat (by omega), show 0x24#64 = (36#6).setWidth 64 from rfl]
    exact decode_dForm (by decide) (by decide) 20#5 1#5 _
  exact (settles_writeMovRi (by decide) im).append (.single (advances_stw hword
    (Unsettled.notMem_settleGpr 20#5) (by rw [signExtend_ofNat hn (by omega)])
    (slotWord_free G hk hk')))

theorem settles_writeStore64 (hn : 16 ≤ n) (be : Bool) (imh iml imm : ℤ) {k : ℕ}
    (himm : imm = k) (hk : 16 ≤ k) (hk' : k + 8 ≤ 32) :
    Settles G (writeStore64 be imh iml imm) U (U.afterStore (G.sp + BitVec.ofNat n k) 8) := by
  have hsum : G.sp + BitVec.ofNat n (k + 4) = G.sp + BitVec.ofNat n k + BitVec.ofNat n 4 := by
    rw [BitVec.ofNat_add, BitVec.add_assoc]
  have htwo : ∀ x y : ℤ, Settles G (writeStore32 x (imm + 0) ++ writeStore32 y (imm + 4)) U
      (U.afterStore (G.sp + BitVec.ofNat n k) 8) := fun x y => by
    have hx := settles_writeStore32 (G := G) (U := U) hn x (imm + 0) (k := k) (by omega) hk
      (by omega)
    have hy := settles_writeStore32 (G := G) (U := U.afterStore (G.sp + BitVec.ofNat n k) 4) hn y
      (imm + 4) (k := k + 4) (by push_cast; omega) (by omega) (by omega)
    rw [hsum] at hy
    exact (hx.append hy).mono_right (U.afterStore_twice _ 4 4)
  rw [writeStore64]
  cases be with
  | true => exact htwo imh iml
  | false => exact htwo iml imh

/-- All of the slot. -/
theorem settles_writeStore128 (hn : 16 ≤ n) (be : Bool) (imhh imh iml imll : ℤ) :
    Settles G (writeStore128 be imhh imh iml imll 0x10) U (U.afterStore (G.sp + 16) 16) := by
  have hsum : G.sp + BitVec.ofNat n 24 = G.sp + 16 + BitVec.ofNat n 8 := by
    rw [BitVec.add_assoc]
    congr 1
    rw [show (16 : BitVec n) = BitVec.ofNat n 16 from rfl, ← BitVec.ofNat_add]
  have htwo : ∀ x y z w : ℤ, Settles G (writeStore64 be x y (0x10 + 0) ++
      writeStore64 be z w (0x10 + 8)) U (U.afterStore (G.sp + 16) 16) := fun x y z w => by
    have hx := settles_writeStore64 (G := G) (U := U) hn be x y (0x10 + 0) (k := 16) rfl
      (by omega) (by omega)
    have hy := settles_writeStore64 (G := G) (U := U.afterStore (G.sp + 16) 8) hn be z w
      (0x10 + 8) (k := 24) rfl (by omega) (by omega)
    rw [hsum] at hy
    exact (hx.append hy).mono_right (U.afterStore_twice _ 8 8)
  rw [writeStore128]
  cases be with
  | true => exact htwo imhh imh iml imll
  | false => exact htwo iml imll imhh imh

/-- What is settled stays settled. -/
theorem Unsettled.settleGpr_le (U : Unsettled n) (r : Reg) : (U.settleGpr r).Le U :=
  { Unsettled.Le.refl U with gpr := Set.sdiff_subset }

theorem Unsettled.afterStore_le (U : Unsettled n) (p : BitVec n) (len : ℕ) :
    (U.afterStore p len).Le U :=
  { Unsettled.Le.refl U with gpr := Set.sdiff_subset, mem := Set.sdiff_subset }

/-- The vector registers themselves are not among what may be different. -/
theorem settles_clearVrRegisters : Settles G clearVrRegisters U U := by
  have hvrsave : Advances G (mtspr 256#64 23#5) (U.settleGpr 23#5) (U.settleGpr 23#5) :=
    advances_vector (i := .mtvrsave 23#5) rfl (f := fun v m => v.mtvrsave (m.cpu.gpr 23#5) m.rest)
      (fun _ => rfl) fun v m a h => by
        rw [h.gpr _ (Unsettled.notMem_settleGpr 23#5), h.rest]
  have hvxor : ∀ i : Reg, Advances G (vxorWord i) U U := fun i =>
    advances_vector (decodeSetup_vxorWord i) (f := fun v m => v.vxor i i i m.rest) (fun _ => rfl)
      fun v m a h => by rw [h.rest]
  have hfirst : Settles G (writeMovRi 23#5 (-1) ++ [mtspr 256#64 23#5]) U U :=
    ((settles_writeMovRi (by decide) _).append (.single hvrsave)).mono_right (U.settleGpr_le _)
  exact hfirst.append (Settles.forRegs _ (fun _ => U) fun i _ => .single (hvxor _))

/-- The first vector register settles the slot that all of them are loaded from. -/
theorem settles_writeRandomPpc64Vrdata (hn : 16 ≤ n) (be : Bool) (d : SetupDraws)
    (hmem : U.mem ⊆ span (G.sp + 16) 16) :
    Settles G (writeRandomPpc64Vrdata be d) U (U.settleMem (span (G.sp + 16) 16)) := by
  have hturn : ∀ V : Unsettled n, V.mem ⊆ span (G.sp + 16) 16 → ∀ i < 32, Settles G
      (writeStore128 be (d.vr i).1.1 (d.vr i).1.2 (d.vr i).2.1 (d.vr i).2.2 0x10 ++
        writeMovRi 0#5 0x10 ++ [lvxWord (BitVec.ofNat 5 i)]) V
      (V.settleMem (span (G.sp + 16) 16)) := fun V hV i hi => by
    have hmov : Settles G (writeMovRi 0#5 0x10) (V.afterStore (G.sp + 16) 16) _ :=
      settles_writeMovRi (by decide) _
    refine (((settles_writeStore128 hn be _ _ _ _).append hmov).append (.single
      (advances_vector (decodeSetup_lvxWord _) (f := fun v m => v.lvxl (BitVec.ofNat 5 i)
        (load m.cpu.mem ((m.cpu.base 1#5 + m.cpu.gpr 0#5) &&& ~~~15) 16) m.rest) (fun _ => rfl)
        fun v m a h => ?_))).mono_right ?_
    · rw [h.base (Unsettled.one _), h.gpr _ (Unsettled.notMem_settleGpr 0#5), h.rest,
        h.load (Set.sdiff_eq_empty.mpr hV)]
    · exact { Unsettled.Le.refl (V.settleMem (span (G.sp + 16) 16)) with
        gpr := Set.sdiff_subset.trans Set.sdiff_subset }
  refine Settles.forRegs _ (fun i => if i = 0 then U else U.settleMem (span (G.sp + 16) 16))
    fun i hi => ?_
  rw [if_neg (Nat.succ_ne_zero i)]
  by_cases hzero : i = 0
  · rw [if_pos hzero]
    exact hturn U hmem i hi
  · rw [if_neg hzero]
    refine (hturn _ (Set.sdiff_subset.trans hmem) i hi).mono_right ?_
    exact { Unsettled.Le.refl (U.settleMem (span (G.sp + 16) 16)) with mem := Set.sdiff_subset }

theorem ofNat_toNat_lt {r : Reg} {i : ℕ} (hi : i < 32) (h : r ∉ ({BitVec.ofNat 5 i} : Set Reg))
    (hle : i ≤ r.toNat) : i + 1 ≤ r.toNat := by
  refine Nat.lt_of_le_of_ne hle fun heq => h ?_
  rw [Set.mem_singleton_iff, ← BitVec.toNat_inj, BitVec.toNat_ofNat, Nat.mod_eq_of_lt (by omega), heq]

/-- Every floating-point register. -/
theorem settles_writeRandomPpc64Fpdata (hn : 16 ≤ n) (be : Bool) (d : SetupDraws) (hmem : U.mem = ∅) :
    Settles G (writeRandomPpc64Fpdata be d) U { U with fpr := ∅ } := by
  have hturn : ∀ V : Unsettled n, V.mem = ∅ → ∀ i, Settles G
      (writeStore64 be (d.fp i).1 (d.fp i).2 0x10 ++ [lfdWord (BitVec.ofNat 5 i)]) V
      (V.settleFpr (BitVec.ofNat 5 i)) := fun V hV i =>
    ((settles_writeStore64 (k := 16) hn be _ _ _ rfl (by omega) (by omega)).mono_right
      (V.afterStore_le _ _)).append (.single (advances_lfd (decode_lfdWord _) V.one hV))
  have hloop := Settles.forRegs (G := G)
    (fun i => writeStore64 be (d.fp i).1 (d.fp i).2 0x10 ++ [lfdWord (BitVec.ofNat 5 i)])
    (fun i => { U with fpr := {r | i ≤ r.toNat} }) fun i hi =>
      (hturn { U with fpr := {r | i ≤ r.toNat} } hmem i).mono_right
        { Unsettled.Le.refl U with fpr := fun r hr => ofNat_toNat_lt hi hr.2 hr.1 }
  refine (hloop.mono_left ?_).mono_right ?_
  · exact { Unsettled.Le.refl U with fpr := fun r _ => Nat.zero_le _ }
  · exact { Unsettled.Le.refl U with fpr := fun r hr => absurd r.isLt (not_lt.mpr hr) }

/-- The general-purpose registers from one on are unsettled. -/
def Unsettled.gprFrom (U : Unsettled n) (i : ℕ) : Unsettled n :=
  { U with gpr := {r | r ≠ 1#5 ∧ i ≤ r.toNat}, one := fun h => h.1 rfl }

/-- Every general-purpose register but the stack pointer. -/
theorem settles_gprs (f : ℕ → ℤ) :
    Settles G (forRegs fun i =>
      if usable [BitVec.ofNat 5 i] then writeMovRi (BitVec.ofNat 5 i) (f i) else []) U
      { U with gpr := ∅, one := Set.notMem_empty _ } := by
  have hloop := Settles.forRegs (G := G) (fun i =>
      if usable [BitVec.ofNat 5 i] then writeMovRi (BitVec.ofNat 5 i) (f i) else []) U.gprFrom
      fun i hi => by
    by_cases husable : usable [BitVec.ofNat 5 i] = true
    · have hone : BitVec.ofNat 5 i ≠ 1#5 := fun heq => by rw [heq] at husable; cases husable
      rw [if_pos husable]
      exact (settles_writeMovRi hone (f i)).mono_right
        { Unsettled.Le.refl (U.gprFrom (i + 1)) with
          gpr := fun r hr => ⟨hr.1.1, ofNat_toNat_lt hi hr.2 hr.1.2⟩ }
    · have hone : BitVec.ofNat 5 i = 1#5 := by
        generalize BitVec.ofNat 5 i = r at husable
        revert husable
        revert r
        decide
      rw [if_neg husable]
      exact .nil { Unsettled.Le.refl (U.gprFrom (i + 1)) with
        gpr := fun r hr => ⟨hr.1, ofNat_toNat_lt hi (by rw [hone]; exact hr.1) hr.2⟩ }
  refine (hloop.mono_left ?_).mono_right ?_
  · exact { Unsettled.Le.refl U with
      gpr := fun r hr => ⟨fun heq => U.one (heq ▸ hr), Nat.zero_le _⟩ }
  · exact { Unsettled.Le.refl U with gpr := fun r hr => absurd r.isLt (not_lt.mpr hr.2) }

/-- All of these registers, the first of them through `r23`. -/
theorem settles_writeRandomRegdata (d : SetupDraws) (hmq : U.mq → G.proc.units.hasMq = true) :
    Settles G (writeRandomRegdata d) U
      { U with gpr := ∅, cr := False, xer := False, ctr := False, mq := False,
               one := Set.notMem_empty _ } := by
  have hself : ∀ V : Unsettled n, 23#5 ∉ (V.settleGpr 23#5).gpr := fun V =>
    Unsettled.notMem_settleGpr 23#5
  have hmov : ∀ (V : Unsettled n) (x : ℤ), Settles G (writeMovRi 23#5 x) V (V.settleGpr 23#5) :=
    fun V x => settles_writeMovRi (by decide) x
  have hxer : decode (mtspr 1#64 23#5) = some (.mtspr .xer 23#5) := @decode_mtspr _ 1#5 0#5 _ rfl rfl rfl _
  have hcrxer : Settles G (writeMovRi 23#5 0 ++ [mtcrf23, mtspr 1#64 23#5]) U _ :=
    (hmov U 0).append (.cons (advances_mtcrf rfl (hself U)) (.single (advances_mtspr hxer (hself U))))
  have hctr := (hcrxer.append (hmov _ d.ctr)).append
    (.single (advances_mtspr (decode_mtspr_ctr 23#5) (hself _)))
  have hall := ((hctr.append (hmov _ d.mq)).append (.single (w := mtspr 0#64 23#5)
    (advances_mtmq rfl (hself _) hmq))).append (settles_gprs d.gpr)
  exact hall.mono_right { Unsettled.Le.refl U with
    gpr := subset_rfl, cr := id, xer := id, ctr := id, mq := id }

/-- What may be different before the setup: all general-purpose registers but the stack pointer, the
condition register, `XER`, `CTR`, `LR`, and `MQ` and the floating-point registers where they are set. -/
def Unsettled.start (fpEnabled hasMq : Bool) (memory : Set (BitVec n)) : Unsettled n where
  gpr := {r | r ≠ 1#5}
  fpr := {_r | fpEnabled = true}
  cr := True
  xer := True
  ctr := True
  lr := True
  mq := hasMq = true
  mem := memory
  one := fun h => h rfl

/-- **The register data settles everything**, in front of it at most the slot above the stack
pointer being different. -/
theorem settles_writeRandomRegisterData (hn : 16 ≤ n) (be fp : Bool) (d : SetupDraws)
    {memory : Set (BitVec n)} (hmem : memory ⊆ span (G.sp + 16) 16) :
    Settles G (writeRandomRegisterData be fp d) (.start fp G.proc.units.hasMq memory) .none := by
  have hlr : Settles G [blWord] (.start fp G.proc.units.hasMq memory) _ := .single (advances_bl rfl)
  have hvr := (hlr.append settles_clearVrRegisters).append
    (settles_writeRandomPpc64Vrdata hn be d hmem)
  have hempty : memory \ span (G.sp + 16) 16 = ∅ := Set.sdiff_eq_empty.mpr hmem
  have hfp : Settles G (if fp then writeRandomPpc64Fpdata be d else [])
      (((Unsettled.start fp G.proc.units.hasMq memory).settleSpr .lr).settleMem
        (span (G.sp + 16) 16))
      { ((Unsettled.start fp G.proc.units.hasMq memory).settleSpr .lr).settleMem
        (span (G.sp + 16) 16) with fpr := ∅ } := by
    cases fp with
    | true => exact settles_writeRandomPpc64Fpdata hn be d hempty
    | false => exact .nil { Unsettled.Le.refl _ with fpr := fun r hr => by cases hr }
  refine ((hvr.append hfp).append (settles_writeRandomRegdata d id)).mono_right ?_
  exact { Unsettled.Le.refl .none with lr := id, mem := hempty.subset }

end Risu.Gen.Ppc
