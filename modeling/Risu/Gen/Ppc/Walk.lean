import Risu.Gen.Ppc.Agree
import Mathlib.Logic.Relation

/-!
# Two processors in the setup

* `Ground.Holds` — words in the code that both execute;
* `Pace`, `Walk` — both go on by one word, and by any number;
* `Settles.walk` — straight code;
* `walk_clearLoop`, `walk_writeMemblockSetup` — the loop that clears memory.
-/

namespace Risu.Gen.Ppc

open Lib

variable {n : ℕ} {o : Order} {G : Ground o n} {U V : Unsettled n}
variable {m a m' a' : Core n G.proc.Rest} {p : BitVec n} {w : Word} {ws vs : List Word}

/-- The words lie in the code, from an address on. -/
def Ground.Holds (G : Ground o n) : BitVec n → List Word → Prop
  | _, [] => True
  | p, w :: ws => span p 4 ⊆ G.code ∧ load G.text p 4 = bytesOf o 4 w.toNat ∧ G.Holds (p + 4) ws

/-- The address behind some words. -/
def behind (p : BitVec n) (ws : List Word) : BitVec n := ws.foldl (fun p _ => p + 4) p

theorem behind_cons (p : BitVec n) (w : Word) (ws : List Word) :
    behind p (w :: ws) = behind (p + 4) ws := rfl

theorem behind_append (p : BitVec n) (ws vs : List Word) :
    behind p (ws ++ vs) = behind (behind p ws) vs := List.foldl_append

theorem Ground.holds_append :
    G.Holds p (ws ++ vs) ↔ G.Holds p ws ∧ G.Holds (behind p ws) vs := by
  induction ws generalizing p with
  | nil => simp [Ground.Holds, behind]
  | cons w ws ih =>
    rw [List.cons_append, Ground.Holds, Ground.Holds, ih, behind_cons]
    tauto

/-! ### One word -/

/-- Both stand at the same word of the setup in the code, and go on. -/
structure Pace (G : Ground o n) (s t : Core n G.proc.Rest × Core n G.proc.Rest) : Prop where
  pc : s.1.cpu.pc = s.2.cpu.pc
  inCode : s.1.cpu.pc ∈ G.code
  fetch : s.1.fetch o = s.2.fetch o
  decodes : (decodeSetup (s.1.fetch o)).isSome = true
  move : Move G.proc (s.1.fetch o) s.1 s.2 t.1 t.2

abbrev Walk (G : Ground o n) : Core n G.proc.Rest × Core n G.proc.Rest →
    Core n G.proc.Rest × Core n G.proc.Rest → Prop := Relation.ReflTransGen (Pace G)

theorem load_text {mem : BitVec n → Byte} (hcode : span p 4 ⊆ G.code) (hn : 3 ≤ n)
    (h : ∀ x ∈ G.code, mem x = G.text x) : load mem p 4 = load G.text p 4 := by
  refine List.map_congr_left fun i hi => h _ (hcode ?_)
  have hpow : 2 ^ 3 ≤ 2 ^ n := Nat.pow_le_pow_right (by decide) hn
  show (p + BitVec.ofNat n i - p).toNat < 4
  rw [add_ofNat_sub_toNat p (by have := List.mem_range.mp hi; omega)]
  exact List.mem_range.mp hi

theorem fetch_text {s : Core n G.proc.Rest} (hn : 3 ≤ n) (hpc : s.cpu.pc = p)
    (hcode : span p 4 ⊆ G.code) (hword : load G.text p 4 = bytesOf o 4 w.toNat)
    (h : ∀ x ∈ G.code, s.cpu.mem x = G.text x) : s.fetch o = w := by
  rw [Core.fetch, hpc, load_text hcode hn h, hword]
  exact ofNat_valueOf_bytesOf o 4 w

theorem self_mem_span (p : BitVec n) {len : ℕ} (h : 0 < len) : p ∈ span p len := by
  show (p - p).toNat < len
  rw [BitVec.sub_self]
  exact h

theorem AgreeBut.pace (hma : AgreeBut G U m a) (hn : 3 ≤ n) (hpc : m.cpu.pc = p)
    (hold : G.Holds p (w :: ws)) (hdec : (decodeSetup w).isSome = true)
    (hmove : Move G.proc w m a m' a') : Pace G (m, a) (m', a') := by
  have hm : m.fetch o = w := fetch_text hn hpc hold.1 hold.2.1 fun x hx => (hma.text x hx).1
  have ha : a.fetch o = w :=
    fetch_text hn (hma.pc.symm.trans hpc) hold.1 hold.2.1 fun x hx => (hma.text x hx).2
  exact ⟨hma.pc, hpc ▸ hold.1 (self_mem_span p (by decide)), hm.trans ha.symm, by rw [hm]; exact hdec,
    by rw [hm]; exact hmove⟩

/-- **Straight code.** -/
theorem Settles.walk (hn : 3 ≤ n) (h : Settles G ws U V) (hold : G.Holds p ws)
    (hma : AgreeBut G U m a) (hpc : m.cpu.pc = p) :
    ∃ m' a', Walk G (m, a) (m', a') ∧ AgreeBut G V m' a' ∧ m'.cpu.pc = behind p ws := by
  induction h generalizing p m a with
  | nil hle => exact ⟨m, a, .refl, hma.mono hle, hpc⟩
  | cons hw _ ih =>
    obtain ⟨m₁, a₁, hmove, hagree, hnext⟩ := hw.moves m a hma
    obtain ⟨m', a', hwalk, hend, hpc'⟩ := ih hold.2.2 hagree (hnext.trans (by rw [hpc]))
    exact ⟨m', a', .head (hma.pace hn hpc hold hw.decodes hmove) hwalk, hend, hpc'⟩

/-! ### The loop that clears memory -/

/-- The displacement of both words of the loop. -/
theorem signExtend_minusFour : (0xfffc#16).signExtend n = -4#n := by
  have hthree : BitVec.setWidth n (~~~0xfffc#16) = 3#n :=
    BitVec.eq_of_toNat_eq (BitVec.toNat_setWidth n 3#16)
  rw [BitVec.signExtend_eq_not_setWidth_not_of_msb_true (by decide), hthree,
    BitVec.not_eq_neg_add, ← BitVec.neg_add, ← BitVec.ofNat_add]

theorem Cpu.setGpr_self (s : Cpu n) (r : Reg) (v : BitVec n) : (s.setGpr r v).gpr r = v := by
  show Function.update s.gpr r v r = v
  rw [Function.update_self]

/-- `stwu` to an address that is left in `r2`. -/
def Core.stwu {ρ : Type} (s : Core n ρ) (ea : BitVec n) (bs : List Byte) : Core n ρ :=
  s.withCpu ((s.cpu.setMem (store s.cpu.mem ea bs)).setGpr 2#5 ea).next

theorem Core.stwu_base {ρ : Type} (s : Core n ρ) (ea : BitVec n) (bs : List Byte) :
    (s.stwu ea bs).cpu.gpr 2#5 = ea :=
  Cpu.setGpr_self (s.cpu.setMem (store s.cpu.mem ea bs)) 2#5 ea

/-- `bdnz -4` -/
def Core.bdnz {ρ : Type} (s : Core n ρ) : Core n ρ :=
  s.withCpu { s.cpu with
    ctr := s.cpu.ctr - 1
    pc := if s.cpu.ctr - 1 ≠ 0 then s.cpu.pc - 4 else s.cpu.pc + 4 }

theorem perform_stwu (s : Core n G.proc.Rest) :
    perform o G.proc.units (.stwu 3#5 2#5 0xfffc#16) s =
      some (s.stwu (s.cpu.gpr 2#5 - 4) (bytesOf o 4 ((s.cpu.gpr 3#5).setWidth 32).toNat)) := by
  have hea : s.cpu.gpr 2#5 + (0xfffc#16).signExtend n = s.cpu.gpr 2#5 - 4 := by
    rw [signExtend_minusFour, BitVec.sub_eq_add_neg]
    rfl
  rw [perform, hea]
  rfl

theorem perform_bdnz (s : Core n G.proc.Rest) :
    perform o G.proc.units (.bdnz 0x3fff#14) s = some s.bdnz := by
  have hpc : s.cpu.pc + (0x3fff#14 ++ 0#2).signExtend n = s.cpu.pc - 4 := by
    rw [show 0x3fff#14 ++ 0#2 = 0xfffc#16 from rfl, signExtend_minusFour, BitVec.sub_eq_add_neg]
    rfl
  rw [perform, hpc]
  rfl

namespace AgreeBut

theorem stwu (h : AgreeBut G U m a) (ea : BitVec n) (bs : List Byte)
    (hfree : Apart (span ea bs.length) G.code) :
    AgreeBut G (U.settleMem (span ea bs.length)) (m.stwu ea bs) (a.stwu ea bs) :=
  ((h.store ea bs hfree).setGpr (r := 2#5) (by decide) rfl).next.mono (Unsettled.settleGpr_le _ _)

theorem bdnz (h : AgreeBut G U m a) (hctr : ¬ U.ctr) : AgreeBut G U m.bdnz a.bdnz :=
  { h with
    pc := by
      show (if m.cpu.ctr - 1 ≠ 0 then m.cpu.pc - 4 else m.cpu.pc + 4) =
        if a.cpu.ctr - 1 ≠ 0 then a.cpu.pc - 4 else a.cpu.pc + 4
      rw [h.ctr hctr, h.pc]
    ctr := fun _ => congrArg (· - 1) (h.ctr hctr) }

/-- One turn of the loop. -/
theorem clearTurn (h : AgreeBut G U m a) (hn : 3 ≤ n) (hold : G.Holds p clearLoop)
    (hpc : m.cpu.pc = p) (h2 : 2#5 ∉ U.gpr) (h3 : 3#5 ∉ U.gpr) (hctr : ¬ U.ctr) {ea : BitVec n}
    (hea : m.cpu.gpr 2#5 - 4 = ea) (hfree : Apart (span ea 4) G.code) :
    ∃ m' a', Walk G (m, a) (m', a') ∧ AgreeBut G (U.settleMem (span ea 4)) m' a' ∧
      m'.cpu.gpr 2#5 = ea ∧ m'.cpu.ctr = m.cpu.ctr - 1 ∧
      m'.cpu.pc = if m.cpu.ctr - 1 ≠ 0 then p else behind p clearLoop := by
  obtain ⟨bs, hbs⟩ : ∃ bs, bs = bytesOf o 4 ((m.cpu.gpr 3#5).setWidth 32).toNat := ⟨_, rfl⟩
  have hlen : bs.length = 4 := by rw [hbs, bytesOf_length]
  have hm : G.proc.step 0x9462fffc#32 m = some (m.stwu ea bs) := by
    rw [G.proc.step_setup _ (.stwu 3#5 2#5 0xfffc#16) _ rfl, perform_stwu, hea, hbs]
  have ha : G.proc.step 0x9462fffc#32 a = some (a.stwu ea bs) := by
    rw [G.proc.step_setup _ (.stwu 3#5 2#5 0xfffc#16) _ rfl, perform_stwu, ← h.gpr _ h2,
      ← h.gpr _ h3, hea, hbs]
  have hstore := h.stwu ea bs (by rw [hlen]; exact hfree)
  rw [hlen] at hstore
  have hfirst := h.pace hn hpc hold rfl (.both hm ha)
  have hnext : (m.stwu ea bs).cpu.pc = p + 4 := congrArg (· + 4) hpc
  have hbranch : ∀ s : Core n G.proc.Rest, G.proc.step 0x4200fffc#32 s = some s.bdnz := fun s => by
    rw [G.proc.step_setup _ (.bdnz 0x3fff#14) _ rfl, perform_bdnz]
  have hsecond := hstore.pace hn hnext hold.2.2 rfl (.both (hbranch _) (hbranch _))
  refine ⟨_, _, .head hfirst (.single hsecond), hstore.bdnz hctr, m.stwu_base ea bs, rfl, ?_⟩
  show (if m.cpu.ctr - 1 ≠ 0 then m.cpu.pc + 4 - 4 else m.cpu.pc + 4 + 4) = _
  rw [hpc, BitVec.add_sub_cancel]
  rfl

end AgreeBut

/-- **The loop** clears what lies below `r2`, four bytes a turn. -/
theorem walk_clearLoop {U : Unsettled n} {m a : Core n G.proc.Rest} (hn : 3 ≤ n)
    (hold : G.Holds p clearLoop) (e : BitVec n) (c : ℕ) (hc : c + 1 < 2 ^ n)
    (hfree : Apart (span e (4 * (c + 1))) G.code)
    (hma : AgreeBut G U m a) (h2 : 2#5 ∉ U.gpr) (h3 : 3#5 ∉ U.gpr) (hctr : ¬ U.ctr)
    (hpc : m.cpu.pc = p) (hcount : m.cpu.ctr = BitVec.ofNat n (c + 1))
    (hbase : m.cpu.gpr 2#5 = e + BitVec.ofNat n (4 * (c + 1))) :
    ∃ m' a', Walk G (m, a) (m', a') ∧
      AgreeBut G (U.settleMem (span e (4 * (c + 1)))) m' a' ∧ m'.cpu.pc = behind p clearLoop := by
  have hea : m.cpu.gpr 2#5 - 4 = e + BitVec.ofNat n (4 * c) := by
    rw [hbase, show 4 * (c + 1) = 4 * c + 4 from rfl, BitVec.ofNat_add, ← BitVec.add_assoc]
    exact BitVec.add_sub_cancel _ _
  have hleft : m.cpu.ctr - 1 = BitVec.ofNat n c := by
    rw [hcount, BitVec.ofNat_add]
    exact BitVec.add_sub_cancel _ _
  obtain ⟨m₁, a₁, hwalk, hagree, hbase₁, hcount₁, hpc₁⟩ := hma.clearTurn hn hold hpc h2 h3 hctr hea
    (hfree.subset (span_subset e (by omega)))
  rw [hleft] at hcount₁ hpc₁
  cases c with
  | zero =>
    rw [if_neg (show ¬ BitVec.ofNat n 0 ≠ 0 from not_not.mpr rfl)] at hpc₁
    refine ⟨m₁, a₁, hwalk, ?_, hpc₁⟩
    rwa [Nat.mul_zero, BitVec.add_zero] at hagree
  | succ c =>
    have hne : BitVec.ofNat n (c + 1) ≠ 0 := fun h => by
      have := congrArg BitVec.toNat h
      rw [BitVec.toNat_ofNat, Nat.mod_eq_of_lt (by omega)] at this
      simp at this
    rw [if_pos hne] at hpc₁
    obtain ⟨m', a', hrest, hend, hpc'⟩ := walk_clearLoop hn hold e c (by omega)
      (hfree.subset fun x (hx : (x - e).toNat < _) => show (x - e).toNat < _ by omega)
      hagree h2 h3 hctr hpc₁ hcount₁ hbase₁
    refine ⟨m', a', hwalk.trans hrest, hend.mono ?_, hpc'⟩
    refine { Unsettled.Le.refl (U.settleMem (span e (4 * (c + 1 + 1)))) with mem := fun x hx => ?_ }
    exact ⟨hx.1.1, fun hin => (span_add_subset e (4 * (c + 1)) 4 hin).elim hx.2 hx.1.2⟩

/-- The lowest address that `write_memblock_setup` clears. -/
def Ground.bottom (G : Ground o n) : BitVec n := G.sp + 132 - BitVec.ofNat n 80000

theorem walk_base {i : Insn} (hn : 3 ≤ n) (hma : AgreeBut G U m a) (hpc : m.cpu.pc = p)
    (hold : G.Holds p (w :: ws)) (hw : decode w = some i) :
    Walk G (m, a) (m.withCpu (exec o i m.cpu), a.withCpu (exec o i a.cpu)) := by
  have hstep : ∀ s : Core n G.proc.Rest, G.proc.step w s = some (s.withCpu (exec o i s.cpu)) :=
    fun s => G.proc.step_setup w _ s (decodeSetup_base hw)
  exact .single (hma.pace hn hpc hold (by rw [decodeSetup_base hw]; rfl) (.both (hstep m) (hstep a)))

theorem walk_addi {rt ra : Reg} {d : BitVec 16} (hn : 3 ≤ n) (hma : AgreeBut G U m a)
    (hpc : m.cpu.pc = p) (hold : G.Holds p (w :: ws)) (hw : decode w = some (.addi rt ra d))
    (hrt : rt ≠ 1#5) (hbase : m.cpu.base ra = a.cpu.base ra) :
    ∃ m' a', Walk G (m, a) (m', a') ∧ AgreeBut G (U.settleGpr rt) m' a' ∧ m'.cpu.pc = p + 4 ∧
      m'.cpu.gpr rt = m.cpu.base ra + d.signExtend n ∧ m'.cpu.ctr = m.cpu.ctr :=
  ⟨_, _, walk_base hn hma hpc hold hw, (hma.setGpr hrt (by rw [hbase])).next, congrArg (· + 4) hpc,
    m.cpu.setGpr_self rt _, rfl⟩

theorem walk_mtctr {rs : Reg} (hn : 3 ≤ n) (hma : AgreeBut G U m a) (hpc : m.cpu.pc = p)
    (hold : G.Holds p (w :: ws)) (hw : decode w = some (.mtspr .ctr rs)) (hrs : rs ∉ U.gpr) :
    ∃ m' a', Walk G (m, a) (m', a') ∧ AgreeBut G (U.settleSpr .ctr) m' a' ∧ m'.cpu.pc = p + 4 ∧
      m'.cpu.ctr = m.cpu.gpr rs :=
  ⟨_, _, walk_base hn hma hpc hold hw, (hma.setSpr .ctr (hma.gpr rs hrs)).next, congrArg (· + 4) hpc,
    rfl⟩

/-- **The loop and what is in front of it** settle the memory that is cleared. -/
theorem walk_writeMemblockSetup (hn : 32 ≤ n) (hold : G.Holds p writeMemblockSetup)
    (hfree : Apart (span G.bottom 80000) G.code) (hma : AgreeBut G U m a)
    (hpc : m.cpu.pc = p) :
    ∃ m' a', Walk G (m, a) (m', a') ∧ AgreeBut G (U.settleMem (span G.bottom 80000)) m' a' ∧
      m'.cpu.pc = behind p writeMemblockSetup := by
  have hwords : writeMemblockSetup =
      0x38404e20#32 :: 0x7c4903a6#32 :: 0x38600000#32 :: 0x38410084#32 :: clearLoop := by decide
  rw [hwords] at hold ⊢
  have hpow : 2 ^ 32 ≤ 2 ^ n := Nat.pow_le_pow_right (by decide) hn
  have hli : decode 0x38404e20#32 = some (.addi 2#5 0#5 20000#16) := rfl
  have hmtctr : decode 0x7c4903a6#32 = some (.mtspr .ctr 2#5) := rfl
  have hzero : decode 0x38600000#32 = some (.addi 3#5 0#5 0#16) := rfl
  have haddi : decode 0x38410084#32 = some (.addi 2#5 1#5 132#16) := rfl
  obtain ⟨m₁, a₁, hwalk₁, h₁, hpc₁, hvalue, -⟩ :=
    walk_addi (by omega) hma hpc hold hli (by decide) rfl
  obtain ⟨m₂, a₂, hwalk₂, h₂, hpc₂, hctr₂⟩ :=
    walk_mtctr (by omega) h₁ hpc₁ hold.2.2 hmtctr (Unsettled.notMem_settleGpr 2#5)
  obtain ⟨m₃, a₃, hwalk₃, h₃, hpc₃, -, hctr₃⟩ :=
    walk_addi (by omega) h₂ hpc₂ hold.2.2.2.2 hzero (by decide) rfl
  obtain ⟨m₄, a₄, hwalk₄, h₄, hpc₄, hbase, hctr₄⟩ :=
    walk_addi (by omega) h₃ hpc₃ hold.2.2.2.2.2.2 haddi (by decide) (h₃.base (Unsettled.one _))
  have hcount : m₄.cpu.ctr = BitVec.ofNat n (19999 + 1) := by
    rw [hctr₄, hctr₃, hctr₂, hvalue, Cpu.base_zero, BitVec.zero_add]
    exact signExtend_ofNat (by omega) (k := 20000) (by decide)
  have hstart : m₄.cpu.gpr 2#5 = G.bottom + BitVec.ofNat n (4 * (19999 + 1)) := by
    rw [hbase, show m₃.cpu.base 1#5 = G.sp from h₃.sp,
      signExtend_ofNat (by omega) (k := 132) (by decide), Ground.bottom]
    exact (BitVec.sub_add_cancel _ _).symm
  obtain ⟨m', a', hwalk, hagree, hpc'⟩ := walk_clearLoop (by omega) hold.2.2.2.2.2.2.2.2 G.bottom 19999
    (by omega) hfree h₄ (fun h => h.2 rfl) (fun h => h.1.2 rfl) id hpc₄ hcount hstart
  refine ⟨m', a', (((hwalk₁.trans hwalk₂).trans hwalk₃).trans hwalk₄).trans hwalk, ?_, hpc'⟩
  exact hagree.mono { Unsettled.Le.refl (U.settleMem (span G.bottom 80000)) with
    gpr := fun r hr => hr.1.1.1, ctr := False.elim }

end Risu.Gen.Ppc
