import Risu.Lib.Partial
import Risu.Gen.Ppc.Loads

/-!
# Two executions of the code for a load (`gen_one_insn`)

The states differ in register 1 and in where the memory block is.  Between setup and cleanup one
register holds an address, and it is the same distance from register 1 in both executions.

* `Related b x` — this relation, for the register `b`;
* `both_reg`, `both_regPlusImm`, `both_regPlusReg` — the setups;
* `Target.Writes` — the registers that a load may write; `both_exec` — the load;
* `both_cleanup` — the cleanup;
* `Anchored` — what constraint and memory block of a pattern have to agree about;
* `Anchored.independent` — then the registers are equal at the next comparison.
-/

namespace Risu.Gen.Ppc

open Lib

/-! ### The relation between two executions -/

/-- Register `b` holds an address at one distance from register 1, `x` is in the exception register,
the memories are equal relative to register 1, and the other registers are equal. -/
structure Related (b : Reg) (x : BitVec 64) (s s' : Cpu 64) : Prop where
  distance : ∃ c, s.gpr b = s.gpr 1#5 + c ∧ s'.gpr b = s'.gpr 1#5 + c
  others : ∀ r, r ≠ 1#5 → r ≠ b → s.gpr r = s'.gpr r
  mem : ∀ a, s.mem (s.gpr 1#5 + a) = s'.mem (s'.gpr 1#5 + a)
  xer : s.xer = x
  xer' : s'.xer = x

variable {o : Order} {b r : Reg} {x : BitVec 64} {s s' : Cpu 64}

/-- The address that the register `b` gets from register 1. -/
theorem both_writeAddRi (hb : b ≠ 1#5) (imm : ℤ) :
    Both (Related 1#5 x) (run o (writeAddRi b 1#5 imm)) (run o (writeAddRi b 1#5 imm))
      (Related b x) := by
  intro s s' h
  refine ⟨_, _, run_writeAddRi o b 1#5 imm s, run_writeAddRi o b 1#5 imm s', ?_⟩
  constructor
  · refine ⟨((uv imm).setWidth 16).signExtend 64, ?_, ?_⟩
    · simp [Cpu.next, Cpu.setGpr, Cpu.base, Function.update_of_ne hb.symm]
    · simp [Cpu.next, Cpu.setGpr, Cpu.base, Function.update_of_ne hb.symm]
  · intro r hr hrb
    simpa [Cpu.next, Cpu.setGpr, Function.update_of_ne hrb] using h.others r hr hr
  · simpa [Cpu.next, Cpu.setGpr, Function.update_of_ne hb.symm] using h.mem
  · exact h.xer
  · exact h.xer'

theorem both_writeMovRi (hr : r ≠ 1#5) (hrb : r ≠ b) (imm : ℤ) :
    Both (Related b x) (run o (writeMovRi r imm)) (run o (writeMovRi r imm)) fun t t' =>
      Related b x t t' ∧ t.gpr r = movValue 64 (uv imm) := by
  intro s s' h
  obtain ⟨pc, hrun⟩ := run_writeMovRi o r imm s
  obtain ⟨pc', hrun'⟩ := run_writeMovRi o r imm s'
  refine ⟨_, _, hrun, hrun', ⟨?_, ?_, ?_, h.xer, h.xer'⟩, ?_⟩
  · simpa [Function.update_of_ne hr.symm, Function.update_of_ne hrb.symm] using h.distance
  · intro r' hr' hrb'
    by_cases heq : r' = r
    · simp [heq]
    · simpa [Function.update_of_ne heq] using h.others r' hr' hrb'
  · simpa [Function.update_of_ne hr.symm] using h.mem
  · simp

theorem decode_mtspr_xer (rs : Reg) : decode (mtspr 1#64 rs) = some (.mtspr .xer rs) :=
  @decode_mtspr _ 1#5 0#5 _ rfl rfl rfl rs

theorem both_mtspr_xer (hr : r ≠ 1#5) (hrb : r ≠ b) {v : BitVec 64} :
    Both (fun s s' => Related b x s s' ∧ s.gpr r = v) (run o [mtspr 1#64 r])
      (run o [mtspr 1#64 r]) (Related b v) := by
  rintro s s' ⟨h, hv⟩
  refine ⟨_, _, run_singleton (decode_mtspr_xer r) o s, run_singleton (decode_mtspr_xer r) o s', ?_⟩
  exact ⟨h.distance, h.others, h.mem, hv, (h.others r hr hrb).symm.trans hv⟩

theorem both_run_append {P Q R : Cpu 64 → Cpu 64 → Prop} {ws us : List Word}
    (hws : Both P (run o ws) (run o ws) Q) (hus : Both Q (run o us) (run o us) R) :
    Both P (run o (ws ++ us)) (run o (ws ++ us)) R := by
  intro s s' hP
  obtain ⟨t, t', hs, hs', hQ⟩ := hws s s' hP
  obtain ⟨u, u', ht, ht', hR⟩ := hus t t' hQ
  exact ⟨u, u', run_append hs ht, run_append hs' ht', hR⟩

/-! ### The setups -/

theorem both_reg (hb : b ≠ 1#5) (d : LoadDraws) (trashed : List Reg) (makezero : BitVec 64) :
    Both (Related 1#5 x) (run o (reg d b trashed makezero).words)
      (run o (reg d b trashed makezero).words) (Related b x) :=
  both_writeAddRi hb _

theorem regPlusImm_nat (b : Reg) (imm : ℕ) (makezero : BitVec 64) :
    regPlusImm b imm [] makezero = ⟨writeAddRi b 1#5 (-(imm : ℤ)), some b, makezero⟩ := by
  rw [regPlusImm, if_neg (not_lt.mpr (Int.natCast_nonneg imm))]
  rfl

theorem both_regPlusImm (hb : b ≠ 1#5) (imm : ℕ) (makezero : BitVec 64) :
    Both (Related 1#5 x) (run o (regPlusImm b imm [] makezero).words)
      (run o (regPlusImm b imm [] makezero).words) (Related b x) := by
  rw [regPlusImm_nat]
  exact both_writeAddRi hb _

/-- The register that `regPlusReg` makes the base. -/
def baseOf (ra rb : Reg) : Reg := if ra ≠ 0#5 then ra else rb

theorem baseOf_ne {ra rb : Reg} (hra : ra ≠ r) (hrb : rb ≠ r) : baseOf ra rb ≠ r := by
  rw [baseOf]
  split
  · exact hra
  · exact hrb

theorem both_regPlusReg {ra rb : Reg} (hra : ra ≠ 1#5) (hrb : rb ≠ 1#5) (hne : ra ≠ rb)
    (trashed : List Reg) (makezero : BitVec 64) :
    Both (Related 1#5 x) (run o (regPlusReg ra rb trashed makezero).words)
      (run o (regPlusReg ra rb trashed makezero).words) (Related (baseOf ra rb) x) := by
  rw [regPlusReg, baseOf]
  by_cases hzero : ra ≠ 0#5
  · rw [if_pos hzero, if_pos hzero]
    exact both_run_append (both_writeAddRi hra 0)
      ((both_writeMovRi hrb hne.symm 32).conseq (fun _ _ h => h) fun _ _ h => h.1)
  · rw [if_neg hzero, if_neg hzero]
    exact both_writeAddRi hrb 32

theorem regPlusReg_base {ra rb : Reg} (makezero : BitVec 64) :
    (regPlusReg ra rb [] makezero).base = some (baseOf ra rb) := by
  rw [regPlusReg, baseOf]
  split <;> rfl

theorem regPlusReg_makezero {ra rb : Reg} (makezero : BitVec 64) :
    (regPlusReg ra rb [] makezero).makezero = makezero := by
  rw [regPlusReg]
  split <;> rfl

/-- Other words in front, the same base register. -/
theorem Setup.withWords (u : Setup) (ws : List Word) :
    ({ u with words := ws } : Setup).base = u.base ∧
      ({ u with words := ws } : Setup).makezero = u.makezero := ⟨rfl, rfl⟩

theorem Setup.afterXer_base (u : Setup) (ra : Reg) (nb : ℕ) : (u.afterXer ra nb).base = u.base :=
  (u.withWords _).1

theorem Setup.afterXer_makezero (u : Setup) (ra : Reg) (nb : ℕ) :
    (u.afterXer ra nb).makezero = u.makezero :=
  (u.withWords _).2

theorem both_afterXer {u : Setup} {ra : Reg} (hra : ra ≠ 1#5) (nb : ℕ)
    (hu : Both (Related 1#5 (movValue 64 (uv nb))) (run o u.words) (run o u.words)
      (Related b (movValue 64 (uv nb)))) :
    Both (Related 1#5 x) (run o (u.afterXer ra nb).words) (run o (u.afterXer ra nb).words)
      (Related b (movValue 64 (uv nb))) :=
  both_run_append (both_writeMovRi hra hra nb)
    (@both_run_append o _ _ _ [mtspr 1#64 ra] _ (both_mtspr_xer hra hra) hu)

/-! ### The load -/

/-- The registers that a load may write, with `x` in the exception register. -/
def Target.Writes (t : Target) (f : Fields) (x : BitVec 64) (r : Reg) : Prop :=
  match t with
  | gpr _ _ _ => r = f.rt
  | quad => r = f.rt ∨ r = f.rt + 1
  | multiple => f.rt ≤ r
  | stringImm => stringIndex f.rt r < words (immBytes f.rb)
  | stringXer => stringIndex f.rt r < words (x.extractLsb' 0 7).toNat
  | stringCompare =>
    stringIndex f.rt r < words (x.extractLsb' 0 7).toNat ∧ ¬(r = f.ra ∧ f.ra ≠ 0 ∨ r = f.rb)
  | other => False

theorem length_upToMatch_le (cmp : Byte) (bytes : List Byte) :
    (upToMatch cmp bytes).length ≤ bytes.length := by
  induction bytes with
  | nil => exact le_rfl
  | cons c cs ih =>
    rw [upToMatch]
    split
    · simp
    · simpa using ih

theorem immBytes_eq (rb : Reg) : immBytes rb = if rb = 0 then 32 else rb.toNat := by
  by_cases h : rb = 0#5
  · simp [immBytes, h]
  · simp [immBytes, h]

variable {f : Fields} {t : Target}

/-- The other registers stay. -/
theorem Target.gprs_of_not_writes (h : ¬t.Writes f s.xer r) (host : Host) (ea : BitVec 64) :
    t.gprs host f ea s r = s.gpr r := by
  cases t with
  | gpr size algebraic reversed => exact Function.update_of_ne h _ _
  | quad =>
    rw [Writes, not_or] at h
    rw [gprs, Function.update_of_ne h.2, Function.update_of_ne h.1]
  | multiple => exact if_neg fun hr => h hr.1
  | stringImm =>
    rw [Writes, immBytes_eq] at h
    exact if_neg fun hr => h hr.1
  | stringXer => exact if_neg fun hr => h hr.1
  | stringCompare =>
    refine if_neg fun hr => h ⟨lt_of_lt_of_le hr.1 ?_, hr.2⟩
    have hlen := length_upToMatch_le (s.xer.extractLsb' 8 8)
      (load s.mem ea (s.xer.extractLsb' 0 7).toNat)
    rw [length_load] at hlen
    rw [words, words]
    omega
  | other => rfl

/-- A register after a load is a function of the register, of the bytes from the address on, and of
the exception register. -/
theorem Target.gprs_congr {ea ea' : BitVec 64} (hr : s.gpr r = s'.gpr r) (hxer : s.xer = s'.xer)
    (hmem : ∀ a, s.mem (ea + a) = s'.mem (ea' + a)) (host : Host) :
    t.gprs host f ea s r = t.gprs host f ea' s' r := by
  have hload : ∀ len, load s.mem ea len = load s'.mem ea' len := load_congr hmem
  have hload' : ∀ k len, load s.mem (ea + k) len = load s'.mem (ea' + k) len := by
    intro k
    refine load_congr fun a => ?_
    rw [BitVec.add_assoc, BitVec.add_assoc]
    exact hmem (k + a)
  cases t with
  | gpr size algebraic reversed => simp only [gprs, hload, Function.update_apply, hr]
  | quad => simp only [gprs, hload, Function.update_apply, hr]
  | multiple => simp only [gprs, hload', hr]
  | stringImm => simp only [gprs, hload, hr]
  | stringXer => simp only [gprs, hload, hr, hxer]
  | stringCompare => simp only [gprs, hload, hr, hxer]
  | other => exact hr

/-- The address of a load is formed from the register `b`. -/
def AddrForm.From (a : AddrForm) (f : Fields) (b : Reg) : Prop :=
  match a with
  | reg => baseOf f.ra f.rb = b ∧ f.ra ≠ f.rb ∧ f.rb ≠ 1#5
  | _ => f.ra = b ∧ f.ra ≠ 0#5

theorem AddrForm.ea_related {a : AddrForm} (ha : a.From f b) (h : Related b x s s') :
    ∃ c, a.ea f s = s.gpr 1#5 + c ∧ a.ea f s' = s'.gpr 1#5 + c := by
  obtain ⟨c, hc, hc'⟩ := h.distance
  cases a with
  | imm zeros =>
    obtain ⟨rfl, hzero⟩ := ha
    refine ⟨c + (BitVec.ofNat 16 (f.imm <<< zeros)).signExtend 64, ?_, ?_⟩
    · rw [ea, Cpu.base, if_neg hzero, hc, BitVec.add_assoc]
    · rw [ea, Cpu.base, if_neg hzero, hc', BitVec.add_assoc]
  | reg =>
    obtain ⟨hbase, hne, hrb⟩ := ha
    by_cases hzero : f.ra = 0#5
    · rw [baseOf, if_neg (not_not.mpr hzero)] at hbase
      refine ⟨c, ?_, ?_⟩
      · rw [ea, Cpu.base, if_pos hzero, hbase, hc, BitVec.zero_add]
      · rw [ea, Cpu.base, if_pos hzero, hbase, hc', BitVec.zero_add]
    · rw [baseOf, if_pos hzero] at hbase
      have hindex := h.others f.rb hrb (hbase ▸ hne.symm)
      refine ⟨c + s.gpr f.rb, ?_, ?_⟩
      · rw [ea, Cpu.base, if_neg hzero, hbase, hc, BitVec.add_assoc]
      · rw [ea, Cpu.base, if_neg hzero, hbase, hc', hindex, BitVec.add_assoc]
  | base =>
    obtain ⟨rfl, hzero⟩ := ha
    refine ⟨c, ?_, ?_⟩
    · rw [ea, Cpu.base, if_neg hzero, hc]
    · rw [ea, Cpu.base, if_neg hzero, hc']

/-- The registers after a load, before the cleanup: where the base register is `kept`, it still holds
an address. -/
structure Loaded (b : Reg) (kept : Prop) (s s' : Cpu 64) : Prop where
  distance : kept → ∃ c, s.gpr b = s.gpr 1#5 + c ∧ s'.gpr b = s'.gpr 1#5 + c
  others : ∀ r, r ≠ 1#5 → r ≠ b → s.gpr r = s'.gpr r

variable {p : LoadPattern} {host : Host}

theorem LoadPattern.exec_gpr_of_not_update (h : p.update = true → f.ra ≠ r) (rest : Rest) :
    (p.exec host f rest s).gpr r = p.target.gprs host f (p.addr.ea f s) s r := by
  rw [exec]
  by_cases hupdate : p.update = true
  · simp [Cpu.next, hupdate, Function.update_of_ne (h hupdate).symm]
  · simp [Cpu.next, hupdate]

theorem both_exec (haddr : p.addr.From f b) (hb : b ≠ 1#5) (hupdate : p.update = true → f.ra = b)
    (hstack : ¬p.target.Writes f x 1#5) (rest rest' : Rest) :
    Both (Related b x) (fun s => some (p.exec host f rest s)) (fun s => some (p.exec host f rest' s))
      (Loaded b (¬p.target.Writes f x b)) := by
  refine both_some fun s s' h => ?_
  obtain ⟨ca, hea, hea'⟩ := p.addr.ea_related haddr h
  have hmem : ∀ a, s.mem (p.addr.ea f s + a) = s'.mem (p.addr.ea f s' + a) := by
    intro a
    rw [hea, hea', BitVec.add_assoc, BitVec.add_assoc]
    exact h.mem (ca + a)
  have hone : p.update = true → f.ra ≠ 1#5 := fun hu => (hupdate hu).trans_ne hb
  have hstack₁ : (p.exec host f rest s).gpr 1#5 = s.gpr 1#5 := by
    rw [p.exec_gpr_of_not_update hone, Target.gprs_of_not_writes (h.xer ▸ hstack)]
  have hstack₂ : (p.exec host f rest' s').gpr 1#5 = s'.gpr 1#5 := by
    rw [p.exec_gpr_of_not_update hone, Target.gprs_of_not_writes (h.xer' ▸ hstack)]
  constructor
  · intro hkept
    rw [hstack₁, hstack₂]
    by_cases hu : p.update = true
    · refine ⟨ca, ?_, ?_⟩
      · simp [LoadPattern.exec, Cpu.next, hu, hupdate hu, hea]
      · simp [LoadPattern.exec, Cpu.next, hu, hupdate hu, hea']
    · rw [p.exec_gpr_of_not_update (fun hu' => absurd hu' hu),
        p.exec_gpr_of_not_update (fun hu' => absurd hu' hu),
        Target.gprs_of_not_writes (h.xer ▸ hkept), Target.gprs_of_not_writes (h.xer' ▸ hkept)]
      exact h.distance
  · intro r hr hrb
    have hne : p.update = true → f.ra ≠ r := fun hu => (hupdate hu).trans_ne hrb.symm
    rw [p.exec_gpr_of_not_update hne, p.exec_gpr_of_not_update hne]
    exact Target.gprs_congr (h.others r hr hrb) (h.xer.trans h.xer'.symm) hmem host

/-! ### The cleanup -/

/-- All registers but register 1 are equal. -/
def SameRegs (s s' : Cpu 64) : Prop := ∀ r, r ≠ 1#5 → s.gpr r = s'.gpr r

theorem both_cleanup {kept : Prop} {u : Setup} (hbase : u.base = some b)
    (hkept : u.makezero = 0 → kept) :
    Both (Loaded b kept) (run o (cleanup u)) (run o (cleanup u)) SameRegs := by
  intro s s' h
  simp only [cleanup, hbase]
  by_cases hzero : u.makezero = 0
  · obtain ⟨c, hc, hc'⟩ := h.distance (hkept hzero)
    simp only [hzero, ne_eq, not_true_eq_false, if_false]
    refine ⟨_, _, run_writeSubfR o b 1#5 b s, run_writeSubfR o b 1#5 b s', ?_⟩
    intro r hr
    by_cases hrb : r = b
    · subst hrb
      have hcancel : ∀ v : BitVec 64, v + c - v = c := fun v => by
        rw [BitVec.add_comm, BitVec.add_sub_cancel]
      simp [Cpu.next, Cpu.setGpr, hc, hc', hcancel]
    · simpa [Cpu.next, Cpu.setGpr, Function.update_of_ne hrb] using h.others r hr hrb
  · rw [if_pos hzero]
    obtain ⟨pc, hrun⟩ := run_writeMovRi o b 0 s
    obtain ⟨pc', hrun'⟩ := run_writeMovRi o b 0 s'
    refine ⟨_, _, hrun, hrun', ?_⟩
    intro r hr
    by_cases hrb : r = b
    · simp [hrb]
    · simpa [Function.update_of_ne hrb] using h.others r hr hrb

/-! ### Independence -/

/-- Two states that differ in register 1 only, with the memories equal relative to it. -/
structure Shifted (s s' : Cpu 64) : Prop where
  gpr : ∀ r, r ≠ 1#5 → s.gpr r = s'.gpr r
  mem : ∀ a, s.mem (s.gpr 1#5 + a) = s'.mem (s'.gpr 1#5 + a)
  pc : s.pc = s'.pc
  fpr : s.fpr = s'.fpr
  lr : s.lr = s'.lr
  ctr : s.ctr = s'.ctr
  xer : s.xer = s'.xer
  cr : s.cr = s'.cr

/-- At the comparison behind the load, all registers but register 1 are equal, whatever the loads
leave in the other registers. -/
def Independent (p : LoadPattern) (f : Fields) (d : LoadDraws) : Prop :=
  ∀ (host : Host) (rest rest' : Rest),
    Both Shifted (p.execute host f d rest) (p.execute host f d rest') SameRegs

theorem Shifted.related (h : Shifted s s') : Related 1#5 s.xer s s' where
  distance := ⟨0, (BitVec.add_zero _).symm, (BitVec.add_zero _).symm⟩
  others := fun r hr _ => h.gpr r hr
  mem := h.mem
  xer := rfl
  xer' := h.xer.symm

/-- What the constraint, the memory block and the load of a pattern have to agree about, with `b` the
base register and `y x` in the exception register after the setup if `x` was there before. -/
structure Anchored (p : LoadPattern) (f : Fields) (d : LoadDraws) (b : Reg)
    (y : BitVec 64 → BitVec 64) : Prop where
  ne : b ≠ 1#5
  setup : ∀ o x, Both (Related 1#5 x) (run o (p.memory f d).words) (run o (p.memory f d).words)
    (Related b (y x))
  base : (p.memory f d).base = some b
  addr : p.addr.From f b
  update : p.update = true → f.ra = b
  stack : ∀ x, ¬p.target.Writes f (y x) 1#5
  kept : (p.memory f d).makezero = 0 → ∀ x, ¬p.target.Writes f (y x) b

/-- **A pattern whose parts agree does not show where the memory block is.** -/
theorem Anchored.independent {d : LoadDraws} {y : BitVec 64 → BitVec 64} (h : Anchored p f d b y) :
    Independent p f d := by
  intro host rest rest' s s' hs
  have hload : Both (Related b (y s.xer)) (fun s => some (p.exec host f rest s))
      (fun s => some (p.exec host f rest' s)) (Loaded b (¬p.target.Writes f (y s.xer) b)) :=
    both_exec h.addr h.ne h.update (h.stack s.xer) rest rest'
  have hcleanup : Both (Loaded b (¬p.target.Writes f (y s.xer) b))
      (run host.order (cleanup (p.memory f d))) (run host.order (cleanup (p.memory f d))) SameRegs :=
    both_cleanup h.base fun hzero => h.kept hzero s.xer
  exact ((h.setup host.order s.xer).bind (hload.bind hcleanup)) s s' hs.related

end Risu.Gen.Ppc
