import Risu.Gen.Ppc.Independence

/-!
# Loads do not show where the memory block is (`ppc64.risu`)

* `anchored_regPlusImm`, `anchored_reg`, `anchored_regPlusReg`, `anchored_afterXer` — patterns by their
  memory blocks;
* `independent_loadD` and so on — patterns by families;
* `not_independent_of_overwrites` — a base register that is loaded, and not made zero;
* `independent_iff` — the two patterns where this happens, and when.
-/

namespace Risu.Gen.Ppc

open Lib

/-! ### The patterns -/

variable {b r : Reg} {x : BitVec 64} {s : Cpu 64} {f : Fields} {d : LoadDraws} {p : LoadPattern}
  {host : Host}

/-- Loads at a displacement. -/
theorem anchored_regPlusImm {imm zeros : ℕ} {makezero : BitVec 64}
    (hmem : p.memory f d = regPlusImm f.ra imm [] makezero) (haddr : p.addr = .imm zeros)
    (hra : f.ra ≠ 1#5) (hzero : f.ra ≠ 0#5) (hstack : ∀ x, ¬p.target.Writes f x 1#5)
    (hkept : makezero = 0 → ∀ x, ¬p.target.Writes f x f.ra) : Anchored p f d f.ra id := by
  constructor
  case ne => exact hra
  case setup =>
    intro o x
    rw [hmem]
    exact both_regPlusImm hra imm makezero
  case base => rw [hmem, regPlusImm_nat]
  case addr =>
    rw [haddr]
    exact ⟨rfl, hzero⟩
  case update => exact fun _ => rfl
  case stack => exact hstack
  case kept =>
    rw [hmem, regPlusImm_nat]
    exact hkept

/-- Loads at the address in one register. -/
theorem anchored_reg {makezero : BitVec 64} (hmem : p.memory f d = reg d f.ra [] makezero)
    (haddr : p.addr = .base) (hra : f.ra ≠ 1#5) (hzero : f.ra ≠ 0#5)
    (hstack : ∀ x, ¬p.target.Writes f x 1#5)
    (hkept : makezero = 0 → ∀ x, ¬p.target.Writes f x f.ra) : Anchored p f d f.ra id := by
  constructor
  case ne => exact hra
  case setup =>
    intro o x
    rw [hmem]
    exact both_reg hra d [] makezero
  case base =>
    rw [hmem]
    rfl
  case addr =>
    rw [haddr]
    exact ⟨rfl, hzero⟩
  case update => exact fun _ => rfl
  case stack => exact hstack
  case kept =>
    rw [hmem]
    exact hkept

/-- Loads at the sum of two registers. -/
theorem anchored_regPlusReg (hmem : p.memory f d = regPlusReg f.ra f.rb [] 0)
    (haddr : p.addr = .reg) (hra : f.ra ≠ 1#5) (hrb : f.rb ≠ 1#5) (hne : f.ra ≠ f.rb)
    (hupdate : p.update = true → f.ra ≠ 0#5) (hstack : ∀ x, ¬p.target.Writes f x 1#5)
    (hkept : ∀ x, ¬p.target.Writes f x (baseOf f.ra f.rb)) :
    Anchored p f d (baseOf f.ra f.rb) id := by
  constructor
  case ne => exact baseOf_ne hra hrb
  case setup =>
    intro o x
    rw [hmem]
    exact both_regPlusReg hra hrb hne [] 0
  case base =>
    rw [hmem]
    exact regPlusReg_base 0
  case addr =>
    rw [haddr]
    exact ⟨rfl, hne, hrb⟩
  case update => exact fun hu => by rw [baseOf, if_pos (hupdate hu)]
  case stack => exact hstack
  case kept => exact fun _ => hkept

/-- Loads at the sum of two registers, with the number of bytes in the exception register. -/
theorem anchored_afterXer {nb : ℕ} {makezero : BitVec 64}
    (hmem : p.memory f d = (regPlusReg f.ra f.rb [] makezero).afterXer f.ra nb)
    (haddr : p.addr = .reg) (hra : f.ra ≠ 1#5) (hrb : f.rb ≠ 1#5) (hne : f.ra ≠ f.rb)
    (hupdate : p.update = false) (hstack : ¬p.target.Writes f (movValue 64 (uv nb)) 1#5)
    (hkept : makezero = 0 → ¬p.target.Writes f (movValue 64 (uv nb)) (baseOf f.ra f.rb)) :
    Anchored p f d (baseOf f.ra f.rb) fun _ => movValue 64 (uv nb) := by
  constructor
  case ne => exact baseOf_ne hra hrb
  case setup =>
    intro o x
    rw [hmem]
    exact both_afterXer hra nb (both_regPlusReg hra hrb hne [] makezero)
  case base => rw [hmem, Setup.afterXer_base, regPlusReg_base]
  case addr =>
    rw [haddr]
    exact ⟨rfl, hne, hrb⟩
  case update =>
    intro hu
    rw [hupdate] at hu
    cases hu
  case stack => exact fun _ => hstack
  case kept =>
    rw [hmem, Setup.afterXer_makezero, regPlusReg_makezero]
    exact fun hzero _ => hkept hzero

/-! #### Families -/

section families

variable {bound zeros size : ℕ} {algebraic reversed update pair : Bool}

theorem independent_loadD
    (h : (loadD bound zeros (.gpr size algebraic reversed) update).constraint f d = true) :
    Independent (loadD bound zeros (.gpr size algebraic reversed) update) f d := by
  simp only [loadD, Bool.and_eq_true, usable_iff, bne_iff_ne, List.mem_cons, List.not_mem_nil, or_false,
    not_or] at h
  obtain ⟨⟨⟨⟨hrt, hra⟩, hzero⟩, hne⟩, -⟩ := h
  apply Anchored.independent (b := f.ra) (y := id)
  exact anchored_regPlusImm rfl rfl (Ne.symm hra) hzero (fun _ => hrt) fun _ _ => hne

theorem independent_otherD (h : (otherD bound zeros update pair).constraint f d = true) :
    Independent (otherD bound zeros update pair) f d := by
  simp only [otherD, Bool.and_eq_true, usable_iff, bne_iff_ne, List.mem_cons, List.not_mem_nil,
    or_false] at h
  obtain ⟨⟨⟨-, hra⟩, hzero⟩, -⟩ := h
  apply Anchored.independent (b := f.ra) (y := id)
  exact anchored_regPlusImm rfl rfl (Ne.symm hra) hzero (fun _ => id) fun _ _ => id

theorem independent_loadX (h : (loadX (.gpr size algebraic reversed)).constraint f d = true) :
    Independent (loadX (.gpr size algebraic reversed)) f d := by
  simp only [loadX, Bool.and_eq_true, usable_iff, bne_iff_ne, List.mem_cons, List.not_mem_nil, or_false,
    not_or] at h
  obtain ⟨⟨⟨⟨hrt, hra, hrb⟩, hta⟩, hab⟩, htb⟩ := h
  apply Anchored.independent (b := baseOf f.ra f.rb) (y := id)
  exact anchored_regPlusReg rfl rfl (Ne.symm hra) (Ne.symm hrb) hab (fun hu => Bool.noConfusion hu)
    (fun _ => hrt) fun _ => baseOf_ne hta (Ne.symm htb)

theorem independent_loadUX (h : (loadUX (.gpr size algebraic reversed)).constraint f d = true) :
    Independent (loadUX (.gpr size algebraic reversed)) f d := by
  simp only [loadUX, Bool.and_eq_true, usable_iff, bne_iff_ne, List.mem_cons, List.not_mem_nil, or_false,
    not_or] at h
  obtain ⟨⟨⟨⟨⟨hrt, hrb, hra⟩, hzero⟩, hta⟩, hab⟩, htb⟩ := h
  apply Anchored.independent (b := baseOf f.ra f.rb) (y := id)
  exact anchored_regPlusReg rfl rfl (Ne.symm hra) (Ne.symm hrb) hab (fun _ => hzero)
    (fun _ => hrt) fun _ => baseOf_ne hta (Ne.symm htb)

theorem independent_otherX (h : (otherX pair).constraint f d = true) :
    Independent (otherX pair) f d := by
  simp only [otherX, Bool.and_eq_true, usable_iff, bne_iff_ne, List.mem_cons, List.not_mem_nil, or_false,
    not_or] at h
  obtain ⟨⟨-, hra, hrb⟩, hab⟩ := h
  apply Anchored.independent (b := baseOf f.ra f.rb) (y := id)
  exact anchored_regPlusReg rfl rfl (Ne.symm hra) (Ne.symm hrb) hab (fun hu => Bool.noConfusion hu)
    (fun _ => id) fun _ => id

theorem independent_otherUX (h : otherUX.constraint f d = true) : Independent otherUX f d := by
  simp only [otherUX, Bool.and_eq_true, usable_iff, bne_iff_ne, List.mem_cons, List.not_mem_nil, or_false,
    not_or] at h
  obtain ⟨⟨⟨hra, hrb⟩, hzero⟩, hab⟩ := h
  apply Anchored.independent (b := baseOf f.ra f.rb) (y := id)
  exact anchored_regPlusReg rfl rfl (Ne.symm hra) (Ne.symm hrb) hab (fun _ => hzero)
    (fun _ => id) fun _ => id

theorem independent_otherBase (h : otherBase.constraint f d = true) : Independent otherBase f d := by
  simp only [otherBase, Bool.and_eq_true, usable_iff, bne_iff_ne, List.mem_cons, List.not_mem_nil,
    or_false, not_or] at h
  obtain ⟨⟨⟨hra, -⟩, hzero⟩, -⟩ := h
  apply Anchored.independent (b := f.ra) (y := id)
  exact anchored_reg rfl rfl (Ne.symm hra) hzero (fun _ => id) fun _ _ => id

end families

/-! #### Loads of several registers -/

theorem independent_LWA (h : LWA.constraint f d = true) (hne : f.rt ≠ f.ra) : Independent LWA f d := by
  simp only [LWA, Bool.and_eq_true, usable_iff, bne_iff_ne, List.mem_cons, List.not_mem_nil, or_false,
    not_or] at h
  obtain ⟨⟨⟨hrt, hra⟩, hzero⟩, -⟩ := h
  apply Anchored.independent (b := f.ra) (y := id)
  exact anchored_regPlusImm rfl rfl (Ne.symm hra) hzero (fun _ => hrt) fun _ _ => hne.symm

theorem stack_LQ (h : LQ.constraint f d = true) :
    f.ra ≠ 1#5 ∧ ¬(1#5 = f.rt ∨ 1#5 = f.rt + 1) := by
  simp only [LQ, Bool.and_eq_true, usable_iff, bne_iff_ne, beq_iff_eq, List.mem_cons, List.not_mem_nil,
    or_false] at h
  obtain ⟨⟨⟨⟨⟨⟨heven, hrt⟩, -⟩, hra⟩, -⟩, -⟩, -⟩ := h
  refine ⟨Ne.symm hra, not_or.mpr ⟨?_, ?_⟩⟩
  · intro heq
    rw [← heq] at heven
    exact absurd heven (by decide)
  · intro heq
    exact hrt (by bv_omega)

theorem independent_LQ (h : LQ.constraint f d = true) (hne : f.ra ≠ f.rt + 1) :
    Independent LQ f d := by
  obtain ⟨hra, hstack⟩ := stack_LQ h
  simp only [LQ, Bool.and_eq_true, bne_iff_ne] at h
  obtain ⟨⟨⟨-, hzero⟩, hart⟩, -⟩ := h
  apply Anchored.independent (b := f.ra) (y := id)
  exact anchored_regPlusImm rfl rfl hra hzero (fun _ => hstack) fun _ _ => not_or.mpr ⟨hart, hne⟩

theorem independent_LMW (h : LMW.constraint f d = true) : Independent LMW f d := by
  simp only [LMW, Bool.and_eq_true, usable_iff, usableWrapped_iff, getLsbD_regsFrom, bne_iff_ne,
    decide_eq_false_iff_not, List.mem_cons, List.not_mem_nil, or_false] at h
  obtain ⟨⟨⟨hregs, hra⟩, hzero⟩, -⟩ := h
  apply Anchored.independent (b := f.ra) (y := id)
  refine anchored_regPlusImm rfl rfl (Ne.symm hra) hzero (fun _ => hregs) fun hmake _ => ?_
  have hnot := not_of_and_regBit (getLsbD_regsFrom f.rt f.ra) hmake
  exact hnot

theorem immBytes_le (rb : Reg) : immBytes rb ≤ 128 := by
  have hrb := rb.isLt
  rw [immBytes]
  split <;> omega

theorem independent_LSWI (h : LSWI.constraint f d = true) : Independent LSWI f d := by
  simp only [LSWI, Bool.and_eq_true, usable_iff, usableWrapped_iff, bne_iff_ne,
    getLsbD_regsWrapped (immBytes_le f.rb), decide_eq_false_iff_not, List.mem_cons, List.not_mem_nil,
    or_false] at h
  obtain ⟨⟨hra, hzero⟩, hregs⟩ := h
  apply Anchored.independent (b := f.ra) (y := id)
  refine anchored_reg rfl rfl (Ne.symm hra) hzero (fun _ => hregs) fun hmake _ => ?_
  have hnot := not_of_and_regBit (getLsbD_regsWrapped (immBytes_le f.rb) f.rt f.ra) hmake
  exact hnot

/-- The number of bytes is in the low seven bits of the exception register. -/
theorem movValue_bytes {k : ℕ} (hk : k < 2 ^ 64) :
    ((movValue 64 (uv k)).extractLsb' 0 7).toNat = k % 128 := by
  have hlow := congrArg (BitVec.extractLsb' 0 7) (movValue_low (n := 64) (by decide) (uv k))
  rw [uv_natCast hk] at hlow ⊢
  have h := congrArg BitVec.toNat hlow
  simp only [BitVec.extractLsb'_toNat, BitVec.toNat_setWidth, BitVec.toNat_ofNat, Nat.shiftRight_zero]
    at h ⊢
  omega

theorem independent_LSWX (h : LSWX.constraint f d = true) : Independent LSWX f d := by
  have hnb : (d.nb : ℕ) ≤ 128 := by omega
  have hbytes : ((movValue 64 (uv (d.nb : ℕ))).extractLsb' 0 7).toNat = d.nb := by
    rw [movValue_bytes (by omega)]
    omega
  simp only [LSWX, Bool.and_eq_true, usable_iff, usableWrapped_iff, bne_iff_ne,
    getLsbD_regsWrapped hnb, decide_eq_false_iff_not, List.mem_cons, List.not_mem_nil, or_false,
    not_or] at h
  obtain ⟨⟨⟨hra, hrb⟩, hne⟩, hregs⟩ := h
  apply Anchored.independent (b := baseOf f.ra f.rb) (y := fun _ => movValue 64 (uv (d.nb : ℕ)))
  refine anchored_afterXer rfl rfl (Ne.symm hra) (Ne.symm hrb) hne rfl ?_ ?_
  · show ¬stringIndex f.rt 1#5 < words _
    rwa [hbytes]
  · intro hmake
    show ¬stringIndex f.rt _ < words _
    rw [hbytes, baseOf]
    split
    · rename_i hzero
      rw [if_pos hzero] at hmake
      exact not_of_and_regBit (getLsbD_regsWrapped hnb f.rt f.ra) hmake
    · rename_i hzero
      rw [if_neg hzero] at hmake
      exact not_of_and_regBit (getLsbD_regsWrapped hnb f.rt f.rb) hmake

/-- The base register is never loaded: there is nothing to make zero. -/
theorem independent_LSCBX (h : LSCBX.constraint f d = true) : Independent LSCBX f d := by
  have hnb : (d.nb : ℕ) ≤ 128 := by omega
  have hbytes : ((movValue 64 (uv (d.nb ||| (d.cmp : ℕ) <<< 8 : ℕ))).extractLsb' 0 7).toNat = d.nb := by
    have hlow : (d.nb ||| (d.cmp : ℕ) <<< 8 : ℕ) % 2 ^ 7 = d.nb := by
      rw [Nat.or_mod_two_pow, Nat.shiftLeft_eq, show (d.cmp : ℕ) * 2 ^ 8 % 2 ^ 7 = 0 by omega,
        Nat.or_zero]
      omega
    have hlt : (d.nb ||| (d.cmp : ℕ) <<< 8 : ℕ) < 2 ^ 64 := by
      refine Nat.or_lt_two_pow (by omega) ?_
      rw [Nat.shiftLeft_eq]
      omega
    rw [movValue_bytes hlt]
    exact hlow
  simp only [LSCBX, Bool.and_eq_true, usable_iff, usableWrapped_iff, bne_iff_ne,
    getLsbD_regsWrapped hnb, decide_eq_false_iff_not, List.mem_cons, List.not_mem_nil, or_false,
    not_or] at h
  obtain ⟨⟨⟨hra, hrb⟩, hne⟩, hregs⟩ := h
  apply Anchored.independent (b := baseOf f.ra f.rb) (y := fun _ => movValue 64 _)
  refine anchored_afterXer rfl rfl (Ne.symm hra) (Ne.symm hrb) hne rfl ?_ ?_
  · rintro ⟨hwrites, -⟩
    rw [hbytes] at hwrites
    exact hregs hwrites
  · rintro - ⟨-, hwrites⟩
    rw [baseOf] at hwrites
    split at hwrites
    · rename_i hzero
      exact hwrites (.inl ⟨rfl, hzero⟩)
    · exact hwrites (.inr rfl)

/-! ### A base register that is a target -/

/-- What a load from zeros leaves in the register `r` does not depend on the state. -/
def Target.Overwrites (t : Target) (f : Fields) (r : Reg) : Prop :=
  ∀ host, ∃ v, ∀ ea (s : Cpu 64), s.mem = (fun _ => 0) → t.gprs host f ea s r = v

/-- The distance that the cleanup leaves is one from the loaded value. -/
theorem execute_of_overwrites {v : BitVec 64} {imm : ℤ} {rest : Rest} {t : Cpu 64}
    (hmem : p.memory f d = ⟨writeAddRi b 1#5 imm, some b, 0⟩) (hb : b ≠ 1#5)
    (hupdate : p.update = false) (hstack : ∀ x, ¬p.target.Writes f x 1#5)
    (hv : ∀ ea (s : Cpu 64), s.mem = (fun _ => 0) → p.target.gprs host f ea s b = v)
    (hs : s.mem = fun _ => 0) (ht : p.execute host f d rest s = some t) :
    t.gpr b = v - s.gpr 1#5 := by
  obtain ⟨u, hsetup, hzero, hone⟩ : ∃ u, run host.order (p.memory f d).words s = some u ∧
      u.mem = (fun _ => 0) ∧ u.gpr 1#5 = s.gpr 1#5 := by
    rw [hmem]
    exact ⟨_, run_writeAddRi host.order b 1#5 imm s, hs, Function.update_of_ne hb.symm _ _⟩
  have hnone : ∀ r : Reg, p.update = true → f.ra ≠ r := by
    intro r hu
    rw [hupdate] at hu
    cases hu
  have hclean := run_writeSubfR host.order b 1#5 b (p.exec host f rest u)
  rw [LoadPattern.execute, hsetup, Option.bind_some, hmem] at ht
  rw [← Option.some.inj (hclean.symm.trans ht)]
  calc ((p.exec host f rest u).setGpr b
        ((p.exec host f rest u).gpr b - (p.exec host f rest u).gpr 1#5)).next.gpr b
      = (p.exec host f rest u).gpr b - (p.exec host f rest u).gpr 1#5 := Function.update_self _ _ _
    _ = v - s.gpr 1#5 := by
      rw [p.exec_gpr_of_not_update (hnone b), p.exec_gpr_of_not_update (hnone 1#5), hv _ _ hzero,
        Target.gprs_of_not_writes (hstack _), hone]

/-- Register 1 shows if a load overwrites the base register. -/
theorem not_independent_of_overwrites {imm : ℤ}
    (hmem : p.memory f d = ⟨writeAddRi b 1#5 imm, some b, 0⟩) (hb : b ≠ 1#5)
    (hupdate : p.update = false) (hstack : ∀ x, ¬p.target.Writes f x 1#5)
    (hover : p.target.Overwrites f b) : ¬Independent p f d := by
  intro h
  obtain ⟨v, hv⟩ := hover ⟨.little, false⟩
  have hshifted : Shifted (Cpu.zero 64) ((Cpu.zero 64).setGpr 1#5 1#64) := by
    constructor
    case gpr => exact fun r hr => (Function.update_of_ne hr _ _).symm
    all_goals intros; rfl
  obtain ⟨t, t', ht, ht', hsame⟩ := h ⟨.little, false⟩ ⟨fun _ => 0, 0⟩ ⟨fun _ => 0, 0⟩ _ _ hshifted
  have hone := hsame b hb
  rw [execute_of_overwrites hmem hb hupdate hstack hv rfl ht,
    execute_of_overwrites hmem hb hupdate hstack hv rfl ht'] at hone
  simp [Cpu.zero, Cpu.setGpr] at hone
  bv_omega

theorem overwrites_gpr (size : ℕ) (algebraic reversed : Bool) :
    (Target.gpr size algebraic reversed).Overwrites f f.rt := by
  intro host
  refine ⟨(Target.gpr size algebraic reversed).gprs host f 0 (Cpu.zero 64) f.rt, fun ea s hs => ?_⟩
  have hload : load s.mem ea size = load (Cpu.zero 64).mem 0 size := by
    rw [hs]
    exact load_congr (fun _ => rfl) size
  simp only [Target.gprs, hload, Function.update_self]

theorem overwrites_quad : Target.quad.Overwrites f (f.rt + 1) := by
  intro host
  refine ⟨Target.quad.gprs host f 0 (Cpu.zero 64) (f.rt + 1), fun ea s hs => ?_⟩
  have hload : load s.mem ea 16 = load (Cpu.zero 64).mem 0 16 := by
    rw [hs]
    exact load_congr (fun _ => rfl) 16
  simp only [Target.gprs, hload, Function.update_self]

theorem not_independent_LWA (h : LWA.constraint f d = true) (heq : f.rt = f.ra) :
    ¬Independent LWA f d := by
  simp only [LWA, Bool.and_eq_true, usable_iff, bne_iff_ne, List.mem_cons, List.not_mem_nil, or_false,
    not_or] at h
  obtain ⟨⟨⟨hrt, -⟩, -⟩, -⟩ := h
  refine not_independent_of_overwrites (b := f.ra) (regPlusImm_nat f.ra _ 0) ?_ rfl (fun _ => hrt) ?_
  · exact heq ▸ Ne.symm hrt
  · exact heq ▸ overwrites_gpr 4 true false

theorem not_independent_LQ (h : LQ.constraint f d = true) (heq : f.ra = f.rt + 1) :
    ¬Independent LQ f d := by
  obtain ⟨hra, hstack⟩ := stack_LQ h
  refine not_independent_of_overwrites (b := f.ra) (regPlusImm_nat f.ra _ 0) hra rfl (fun _ => hstack) ?_
  exact heq ▸ overwrites_quad

/-- The base register is loaded, and it is not made zero. -/
def LoadName.LoadsBase (p : LoadName) (f : Fields) : Prop :=
  p = LWA ∧ f.rt = f.ra ∨ p = LQ ∧ f.ra = f.rt + 1

/-- **The registers do not depend on where the memory block is, unless the base register of `LWA` or
`LQ` is loaded.** -/
theorem independent_iff (p : LoadName) (f : Fields) (d : LoadDraws)
    (h : p.pattern.constraint f d = true) : Independent p.pattern f d ↔ ¬p.LoadsBase f := by
  constructor
  · rintro hind (⟨rfl, heq⟩ | ⟨rfl, heq⟩)
    · exact not_independent_LWA h heq hind
    · exact not_independent_LQ h heq hind
  · intro hbase
    cases p
    case LWA => exact independent_LWA h fun heq => hbase (.inl ⟨rfl, heq⟩)
    case LQ => exact independent_LQ h fun heq => hbase (.inr ⟨rfl, heq⟩)
    case LMW => exact independent_LMW h
    case LSWI => exact independent_LSWI h
    case LSWX => exact independent_LSWX h
    case LSCBX | LSCBXd => exact independent_LSCBX h
    case LXVL | LXVLL => exact independent_otherBase h
    case LFDUX | LFSUX => exact independent_otherUX h
    case LBZ | LBZU | LHA | LHAU | LHZ | LHZU | LWZ | LWZU | LD | LDU => exact independent_loadD h
    case LFD | LFDU | LFS | LFSU | LFDP | LXSD | LXSSP | LXV => exact independent_otherD h
    case LBZX | LDX | LDBRX | LHAX | LHBRX | LHZX | LWAX | LWBRX | LWZX => exact independent_loadX h
    case LBZUX | LDUX | LHAUX | LHZUX | LWAUX | LWZUX => exact independent_loadUX h
    all_goals exact independent_otherX h

/-- `lswx r30, r3, r4` of 11 bytes wraps around to register 0. -/
theorem independent_lswx_wrapped :
    LoadName.LSWX.pattern.constraint ⟨30, 3, 4, 0⟩ ⟨0, 11, 0⟩ = true ∧
      Independent LoadName.LSWX.pattern ⟨30, 3, 4, 0⟩ ⟨0, 11, 0⟩ :=
  ⟨by decide +kernel, (independent_iff .LSWX ⟨30, 3, 4, 0⟩ ⟨0, 11, 0⟩ (by decide +kernel)).mpr (by
    rintro (⟨h, -⟩ | ⟨h, -⟩) <;> cases h)⟩

/-- **`lwa r3, 0(r3)` leaves the loaded word less the address of the memory block.** -/
theorem lwa_shows_base : ¬∀ (p : LoadName) (f : Fields) (d : LoadDraws),
    p.pattern.constraint f d = true → Independent p.pattern f d := by
  intro h
  exact not_independent_LWA (f := ⟨3, 3, 0, 0⟩) (d := ⟨0, 0, 0⟩) (by decide +kernel) rfl
    (h .LWA ⟨3, 3, 0, 0⟩ ⟨0, 0, 0⟩ (by decide +kernel))

end Risu.Gen.Ppc
