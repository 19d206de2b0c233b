import Risu.Ppc64.Accepted

/-!
# Divisions of the comparator (`reginfo_is_eq`)

The tests for `div` and `divs` divide values of the master's record.  They look at the whole
register `rb` before they divide by its low word, and at no dividend at all.

* `DivTraps`, `DivsTraps` — the operands on which the division has a zero divisor, or a quotient
  that is no `int64_t`;
* `ReachesTrap` — the comparison comes as far as such a division;
* `reginfoIsEq_total_iff` — the comparison returns in all other cases, and only in these.
-/

namespace Risu.Ppc64

open Lib

variable {w nvr : ℕ}

/-! ### Operands -/

namespace Reginfo

/-- `int64_t((uint64_t(m->gregs[ra]) << 32) | m->gregs[risu_MQ])` -/
def dividend (m : Reginfo w nvr) : BitVec 64 :=
  ((m.gpr m.ra).setWidth 64 <<< 32) ||| (m.gregs risuMq).setWidth 64

/-- `int32_t(m->gregs[rb])` -/
def divisor (m : Reginfo w nvr) : BitVec 32 := (m.gpr m.rb).setWidth 32

/-- The tests before the division find nothing: the target is no operand, and `rb` is not 0. -/
def Divides (m : Reginfo w nvr) : Prop := m.ra ≠ m.rt ∧ m.rb ≠ m.rt ∧ m.gpr m.rb ≠ 0

end Reginfo

/-- After a `div`, the divisor is 0 although the register is not, or -2^63 is divided by -1. -/
def DivTraps (m : Reginfo w nvr) : Prop :=
  m.Divides ∧ (m.divisor = 0 ∨ m.dividend = BitVec.intMin 64 ∧ m.divisor = -1)

/-- After a `divs` the dividend is one word, and only the divisor matters. -/
def DivsTraps (m : Reginfo w nvr) : Prop := m.Divides ∧ m.divisor = 0

theorem quotientOverflows_eq_none {num : BitVec 64} {den : BitVec 32} :
    quotientOverflows num den = none ↔ den = 0 ∨ num = BitVec.intMin 64 ∧ den = -1 := by
  rw [quotientOverflows]
  split_ifs with h
  · simp only [h]
  · simp only [h]

theorem divUndefined_eq_none {m : Reginfo w nvr} : divUndefined m = none ↔ DivTraps m := by
  rw [divUndefined]
  split_ifs with h
  · simp only [false_iff]
    rintro ⟨⟨hra, hrb, hzero⟩, -⟩
    rcases h with h | h | h
    · exact hra h
    · exact hrb h
    · exact hzero h
  · have hdiv : m.Divides := by simpa only [Reginfo.Divides, not_or] using h
    rw [quotientOverflows_eq_none]
    exact ⟨fun htrap => ⟨hdiv, htrap⟩, fun htrap => htrap.2⟩

/-- A sign-extended word is not -2^63. -/
theorem signExtend_ne_intMin (x : BitVec 32) : x.signExtend 64 ≠ BitVec.intMin 64 := by
  intro h
  have hint := congrArg BitVec.toInt h
  rw [BitVec.toInt_signExtend_of_le (by decide)] at hint
  have hmin : (BitVec.intMin 64).toInt = -2 ^ 63 := by decide
  have hle := BitVec.le_toInt x
  omega

theorem divsUndefined_eq_none {m : Reginfo w nvr} : divsUndefined m = none ↔ DivsTraps m := by
  rw [divsUndefined]
  split_ifs with h
  · simp only [false_iff]
    rintro ⟨⟨hra, hrb, hzero⟩, -⟩
    rcases h with h | h | h
    · exact hra h
    · exact hrb h
    · exact hzero h
  · have hdiv : m.Divides := by simpa only [Reginfo.Divides, not_or] using h
    rw [quotientOverflows_eq_none]
    constructor
    · rintro (hzero | ⟨hmin, -⟩)
      · exact ⟨hdiv, hzero⟩
      · exact absurd hmin (signExtend_ne_intMin _)
    · exact fun htrap => .inl htrap.2

/-! ### Instructions -/

theorem Insn.not_matches {p q : Insn} {insn : BitVec 32} (hp : p.matches insn = true)
    (h : p.value &&& q.mask ≠ q.value &&& p.mask) : q.matches insn = false := by
  by_contra hq
  exact h (matches_agree hp (by simpa using hq))

/-- The division made for the target of the instruction just executed traps. -/
def TargetTraps (m : Reginfo w nvr) : Prop :=
  Insn.div.matches m.prevInsn = true ∧ DivTraps m ∨
    Insn.divs.matches m.prevInsn = true ∧ DivsTraps m

theorem TargetTraps.not_mflr {m : Reginfo w nvr} (h : TargetTraps m) :
    Insn.mflr.matches m.prevInsn = false := by
  rcases h with ⟨h, -⟩ | ⟨h, -⟩
  · exact Insn.not_matches h (by decide)
  · exact Insn.not_matches h (by decide)

/-! ### General-purpose registers -/

section gprs

variable {mask : BitVec 32} {m a s s' : Reginfo w nvr} {i : Fin 32}

theorem gprTolerated_of_ne_rt (h : i ≠ m.rt) : gprTolerated m a i = some (lscbxTail m a i) := by
  have hne : (m.rt == i) = false := by simpa using h.symm
  simp [gprTolerated, mflrRelative, hne]

theorem gprTolerated_rt_of_traps (h : TargetTraps m) : gprTolerated m a m.rt = none := by
  have hmflr : mflrRelative m a m.rt = false := by simp [mflrRelative, h.not_mflr]
  rcases h with ⟨hdiv, htrap⟩ | ⟨hdivs, htrap⟩
  · simp [gprTolerated, hmflr, hdiv, divUndefined_eq_none.mpr htrap]
  · have hdiv : Insn.div.matches m.prevInsn = false := Insn.not_matches hdivs (by decide)
    simp [gprTolerated, hmflr, hdiv, hdivs, divsUndefined_eq_none.mpr htrap]

theorem gprTolerated_eq_none : gprTolerated m a i = none ↔ i = m.rt ∧ TargetTraps m := by
  constructor
  · intro h
    by_cases hi : i = m.rt
    · refine ⟨hi, ?_⟩
      subst hi
      by_contra htrap
      simp only [TargetTraps, not_or, not_and, ← divUndefined_eq_none,
        ← divsUndefined_eq_none] at htrap
      obtain ⟨hdiv, hdivs⟩ := htrap
      cases hd : Insn.div.matches m.prevInsn with
      | true =>
        obtain ⟨u, hu⟩ := Option.ne_none_iff_exists'.mp (hdiv hd)
        have hds : Insn.divs.matches m.prevInsn = false := Insn.not_matches hd (by decide)
        cases hm : mflrRelative m a m.rt <;> cases u <;> simp [gprTolerated, hm, hd, hds, hu] at h
      | false =>
        cases hds : Insn.divs.matches m.prevInsn with
        | true =>
          obtain ⟨u, hu⟩ := Option.ne_none_iff_exists'.mp (hdivs hds)
          cases hm : mflrRelative m a m.rt <;> cases u <;>
            simp [gprTolerated, hm, hd, hds, hu] at h
        | false => cases hm : mflrRelative m a m.rt <;> simp [gprTolerated, hm, hd, hds] at h
    · rw [gprTolerated_of_ne_rt hi] at h
      cases h
  · rintro ⟨rfl, htrap⟩
    exact gprTolerated_rt_of_traps htrap

/-- The loop gets past register `i`, where the division for the target traps. -/
def GprPasses (mask : BitVec 32) (m a : Reginfo w nvr) (i : Fin 32) : Prop :=
  m.gpr i = a.gpr i ∨ masked mask i = true ∨ i ≠ m.rt ∧ lscbxTail m a i = true

/-- The loop gets past register `i`. -/
def GprAccepts (mask : BitVec 32) (m a : Reginfo w nvr) (i : Fin 32) : Prop :=
  m.gpr i = a.gpr i ∨ masked mask i = true ∨ gprTolerated m a i = some true

theorem gprAccepts_of_ne_rt (h : i ≠ m.rt) :
    GprAccepts mask m a i ↔ GprPasses mask m a i := by
  simp [GprAccepts, GprPasses, gprTolerated_of_ne_rt h, h]

theorem gprAccepts_iff_passes (htrap : TargetTraps m) :
    GprAccepts mask m a i ↔ GprPasses mask m a i := by
  by_cases hi : i = m.rt
  · subst hi
    simp [GprAccepts, GprPasses, gprTolerated_rt_of_traps htrap]
  · exact gprAccepts_of_ne_rt hi

theorem gregStep_isOk : (∃ s', gregStep mask m s i = .ok s') ↔ GprAccepts mask m s i := by
  constructor
  · rintro ⟨s', hs'⟩
    exact (gregStep_ok hs').1
  · intro h
    rw [gregStep]
    split_ifs with heq hmask
    · exact ⟨s, rfl⟩
    · exact ⟨s, rfl⟩
    · rcases h with h | h | h
      · exact absurd h heq
      · exact absurd h hmask
      · exact ⟨_, by rw [h]⟩

theorem gregStep_traps : gregStep mask m s i = .error .trap ↔
    m.gpr i ≠ s.gpr i ∧ masked mask i = false ∧ i = m.rt ∧ TargetTraps m := by
  rw [← gprTolerated_eq_none (a := s)]
  rw [gregStep]
  split_ifs with heq hmask
  · simp [heq]
  · simp [hmask]
  · cases htol : gprTolerated m s i with
    | none => simp [heq, hmask]
    | some b => cases b <;> simp

/-- The GPR loop decides about each register by the record before the loop. -/
theorem GprLoop.accepts_iff {L : List (Fin 32)} (h : GprLoop (i :: L) s a) :
    GprAccepts mask m s i ↔ GprAccepts mask m a i := by
  have hi := h.gpr i List.mem_cons_self
  rw [GprAccepts, hi, gprTolerated_congr hi (h.like.special risuNip (by decide))]
  exact Iff.rfl

/-- The loop traps where it comes to the target and the division made there traps. -/
theorem gprLoop_traps : (List.finRange 32).foldlM (gregStep mask m) a = .error .trap ↔
    TargetTraps m ∧ (∀ j < m.rt, GprPasses mask m a j) ∧ m.gpr m.rt ≠ a.gpr m.rt ∧
      masked mask m.rt = false := by
  rw [foldlM_eq_error_iff (I := fun L s => GprLoop L s a) (P := GprAccepts mask m a)
    (E := fun i => m.gpr i ≠ a.gpr i ∧ masked mask i = false ∧ i = m.rt ∧ TargetTraps m)
    (fun _ _ _ _ hI hs => gregStep_keeps hI hs)
    (fun _ _ _ hI => gregStep_isOk.trans hI.accepts_iff)
    (fun i L s hI => by rw [gregStep_traps, hI.gpr i List.mem_cons_self])
    (gprLoop_start a) (List.pairwise_lt_finRange 32)]
  simp only [List.mem_finRange, true_implies, true_and]
  constructor
  · rintro ⟨i, hpass, hne, hmask, rfl, htrap⟩
    exact ⟨htrap, fun j hj => (gprAccepts_of_ne_rt hj.ne).mp (hpass j hj), hne, hmask⟩
  · rintro ⟨htrap, hpass, hne, hmask⟩
    exact ⟨m.rt, fun j hj => (gprAccepts_of_ne_rt hj.ne).mpr (hpass j hj), hne, hmask, rfl, htrap⟩

theorem gprLoop_isOk (htrap : TargetTraps m) :
    (∃ s, (List.finRange 32).foldlM (gregStep mask m) a = .ok s) ↔ ∀ i, GprPasses mask m a i := by
  rw [foldlM_isOk_iff (I := fun L s => GprLoop L s a) (P := GprAccepts mask m a)
    (fun _ _ _ _ hI hs => gregStep_keeps hI hs)
    (fun _ _ _ hI => gregStep_isOk.trans hI.accepts_iff) (gprLoop_start a)]
  simp only [List.mem_finRange, true_implies, gprAccepts_iff_passes htrap]

/-- The loop changes none of the special registers. -/
theorem gprLoop_like (h : (List.finRange 32).foldlM (gregStep mask m) a = .ok s) : Like s a :=
  (foldlM_visits (I := fun L s => GprLoop L s a) (fun _ _ _ _ hI hs => gregStep_keeps hI hs)
    (gprLoop_start a) h).1.like

end gprs

/-! ### Special registers -/

section special

variable {o : Options} {signalCount : ℕ} {m a s s' : Reginfo w nvr}

/-- The comparison gets past XER, LR and CTR. -/
structure SpecialPasses (o : Options) (m a : Reginfo w nvr) : Prop where
  xer : sameUnder o.xerMask (m.gregs risuXer) (a.gregs risuXer) = true
  lnk : m.gregs risuLnk - m.gregs risuNip = a.gregs risuLnk - a.gregs risuNip
  ctr : m.gregs risuCtr = a.gregs risuCtr

/-- The comparison gets past CCR, where the division after a `div` traps. -/
def CcrPasses (o : Options) (m a : Reginfo w nvr) : Prop :=
  m.gregs risuCcr = a.gregs risuCcr ∨ Insn.divDot.matches m.prevInsn = false ∧
    sameUnder o.ccrMask (m.gregs risuCcr) (a.gregs risuCcr) = true

theorem xerStep_isOk : (∃ s', xerStep o m s = .ok s') ↔
    sameUnder o.xerMask (m.gregs risuXer) (s.gregs risuXer) = true := by
  constructor
  · rintro ⟨s', hs'⟩
    exact (xerStep_ok hs').1
  · intro h
    rw [xerStep]
    rw [if_pos h]
    split_ifs
    · exact ⟨s, rfl⟩
    · exact ⟨_, rfl⟩

theorem xerStep_not_trap : xerStep o m s ≠ .error .trap := by
  rw [xerStep]
  split_ifs <;> simp

theorem lnkStep_not_trap : lnkStep m s ≠ .error .trap := by
  rw [lnkStep]
  split_ifs <;> simp

theorem ctrStep_not_trap : ctrStep m s ≠ .error .trap := by
  rw [ctrStep]
  split_ifs <;> simp

theorem fpscrStep_not_trap : fpscrStep o m s ≠ .error .trap := by
  rw [fpscrStep]
  split_ifs <;> simp

theorem fprStep_not_trap {i : Fin 32} : fprStep o m s i ≠ .error .trap := by
  rw [fprStep]
  split_ifs <;> simp

theorem vrStep_not_trap {i : Fin nvr} : vrStep o m s i ≠ .error .trap := by
  rw [vrStep]
  split_ifs <;> simp

/-- The steps before CCR. -/
def stepsBeforeCcr (o : Options) (m a : Reginfo w nvr) : Except (Stop w nvr) (Reginfo w nvr) := do
  let a ← xerStep o m a
  let a ← lnkStep m a
  ctrStep m a

/-- The steps after MQ. -/
def stepsAfterMq (o : Options) (m a : Reginfo w nvr) : Except (Stop w nvr) (Reginfo w nvr) := do
  let a ← fpscrStep o m a
  let a ← (List.finRange 32).foldlM (fprStep o m) a
  (List.finRange nvr).foldlM (vrStep o m) a

theorem scanRest_eq : scanRest o signalCount m s =
    (stepsBeforeCcr o m s >>= ccrStep o m) >>= mqStep o signalCount m >>= stepsAfterMq o m := by
  simp only [scanRest, stepsBeforeCcr, bind_assoc]
  rfl

theorem stepsAfterMq_not_trap : stepsAfterMq o m s ≠ .error .trap := by
  intro h
  rcases bind_eq_error.mp h with h | ⟨s₁, -, h⟩
  · exact fpscrStep_not_trap h
  rcases bind_eq_error.mp h with h | ⟨s₂, -, h⟩
  · obtain ⟨i, -, t, ht⟩ := foldlM_eq_error h
    exact fprStep_not_trap ht
  · obtain ⟨i, -, t, ht⟩ := foldlM_eq_error h
    exact vrStep_not_trap ht

theorem ccrMaskAfter_eq_none : ccrMaskAfter o m = none ↔
    Insn.divDot.matches m.prevInsn = true ∧ DivTraps m := by
  rw [ccrMaskAfter]
  split_ifs with hfcmp hmcrfs hdiv
  · have := Insn.not_matches hfcmp (q := Insn.divDot) (by decide)
    simp [this]
  · have := Insn.not_matches hmcrfs (q := Insn.divDot) (by decide)
    simp [this]
  · simp [hdiv, divUndefined_eq_none]
  · simp [hdiv]

theorem ccrStep_traps : ccrStep o m s = .error .trap ↔
    m.gregs risuCcr ≠ s.gregs risuCcr ∧ Insn.divDot.matches m.prevInsn = true ∧ DivTraps m := by
  rw [← ccrMaskAfter_eq_none (o := o)]
  rw [ccrStep]
  split_ifs with heq
  · simp [heq]
  · cases hmask : ccrMaskAfter o m with
    | none => simp [heq]
    | some mask => simp only [reduceCtorEq, and_false, iff_false]; split_ifs <;> simp

theorem div_of_divDot {insn : BitVec 32} (h : Insn.divDot.matches insn = true) :
    Insn.div.matches insn = true := by
  simp only [Insn.matches, beq_iff_eq] at h ⊢
  have hsub : Insn.div.mask = Insn.divDot.mask &&& Insn.div.mask := by decide
  rw [hsub, ← BitVec.and_assoc, h]
  decide

theorem ccrStep_isOk (hdiv : Insn.div.matches m.prevInsn = true) (htrap : DivTraps m) :
    (∃ s', ccrStep o m s = .ok s') ↔ CcrPasses o m s := by
  have hfcmp : Insn.fcmp.matches m.prevInsn = false := Insn.not_matches hdiv (by decide)
  have hmcrfs : Insn.mcrfs.matches m.prevInsn = false := Insn.not_matches hdiv (by decide)
  rw [ccrStep, CcrPasses]
  split_ifs with heq
  · simp [heq]
  · cases hdot : Insn.divDot.matches m.prevInsn with
    | true =>
      rw [ccrMaskAfter_eq_none.mpr ⟨hdot, htrap⟩]
      simp [heq]
    | false =>
      have hmask : ccrMaskAfter o m = some o.ccrMask := by
        simp [ccrMaskAfter, hfcmp, hmcrfs, hdot]
      rw [hmask]
      by_cases hsame : sameUnder o.ccrMask (m.gregs risuCcr) (s.gregs risuCcr) = true
      · simp [hsame]
      · simp [hsame, heq]

theorem mqStep_traps : mqStep o signalCount m s = .error .trap ↔
    sameUnder o.mqMask (m.gregs risuMq) (s.gregs risuMq) = false ∧
      Insn.div.matches m.prevInsn = true ∧ DivTraps m := by
  rw [← divUndefined_eq_none]
  rw [mqStep]
  split_ifs with heq
  · simp [heq, sameUnder]
  · cases hsame : sameUnder o.mqMask (m.gregs risuMq) (s.gregs risuMq) with
    | true => simp [mqTolerated, hsame]
    | false =>
      cases hdiv : Insn.div.matches m.prevInsn with
      | false =>
        simp only [mqTolerated, hsame, hdiv]
        cases hrest : (o.use601 && isOneOf m.prevInsn writesMq || decide (signalCount ≤ 1)) <;> simp
      | true =>
        cases hundef : divUndefined m with
        | none => simp [mqTolerated, hsame, hdiv, hundef]
        | some undef =>
          cases undef <;>
          cases hrest : (o.use601 && isOneOf m.prevInsn writesMq || decide (signalCount ≤ 1)) <;>
            simp [mqTolerated, hsame, hdiv, hundef, hrest]

theorem SpecialPasses.congr {t : Reginfo w nvr} (hl : Like s t) :
    SpecialPasses o m s ↔ SpecialPasses o m t := by
  constructor
  · rintro ⟨hxer, hlnk, hctr⟩
    rw [hl.special risuXer (by decide)] at hxer
    rw [hl.special risuLnk (by decide), hl.special risuNip (by decide)] at hlnk
    rw [hl.special risuCtr (by decide)] at hctr
    exact ⟨hxer, hlnk, hctr⟩
  · rintro ⟨hxer, hlnk, hctr⟩
    rw [← hl.special risuXer (by decide)] at hxer
    rw [← hl.special risuLnk (by decide), ← hl.special risuNip (by decide)] at hlnk
    rw [← hl.special risuCtr (by decide)] at hctr
    exact ⟨hxer, hlnk, hctr⟩

/-- After XER, LR and CTR the record differs from the one before in XER at most. -/
theorem stepsBeforeCcr_ok (h : stepsBeforeCcr o m s = .ok s') :
    SpecialPasses o m s ∧ s' = s.setGreg risuXer (m.gregs risuXer) := by
  obtain ⟨s₁, h₁, h⟩ := bind_eq_ok.mp h
  obtain ⟨s₂, h₂, h₃⟩ := bind_eq_ok.mp h
  obtain ⟨hxer, rfl⟩ := xerStep_ok h₁
  obtain ⟨hlnk, rfl⟩ := lnkStep_ok h₂
  obtain ⟨hctr, rfl⟩ := ctrStep_ok h₃
  rw [setGreg_gregs_of_ne s (by decide), setGreg_gregs_of_ne s (by decide)] at hlnk
  rw [setGreg_gregs_of_ne s (by decide)] at hctr
  exact ⟨⟨hxer, hlnk, hctr⟩, rfl⟩

theorem stepsBeforeCcr_of_passes (h : SpecialPasses o m s) :
    stepsBeforeCcr o m s = .ok (s.setGreg risuXer (m.gregs risuXer)) := by
  obtain ⟨s₁, h₁⟩ := xerStep_isOk.mpr h.xer
  obtain ⟨-, rfl⟩ := xerStep_ok h₁
  have hkeep : ∀ {j : Fin 41}, j ≠ risuXer →
      (s.setGreg risuXer (m.gregs risuXer)).gregs j = s.gregs j :=
    fun hne => setGreg_gregs_of_ne s hne _
  have hlnk : lnkStep m (s.setGreg risuXer (m.gregs risuXer)) =
      .ok (s.setGreg risuXer (m.gregs risuXer)) := by
    rw [lnkStep, hkeep (by decide), hkeep (by decide), if_pos h.lnk]
  have hctr : ctrStep m (s.setGreg risuXer (m.gregs risuXer)) =
      .ok (s.setGreg risuXer (m.gregs risuXer)) := by
    rw [ctrStep, hkeep (by decide), if_pos h.ctr]
  exact bind_eq_ok.mpr ⟨_, h₁, bind_eq_ok.mpr ⟨_, hlnk, hctr⟩⟩

theorem stepsBeforeCcr_not_trap : stepsBeforeCcr o m s ≠ .error .trap := by
  intro h
  rcases bind_eq_error.mp h with h | ⟨s₁, -, h⟩
  · exact xerStep_not_trap h
  rcases bind_eq_error.mp h with h | ⟨s₂, -, h⟩
  · exact lnkStep_not_trap h
  · exact ctrStep_not_trap h

/-- The comparison comes to a division for CCR or MQ that traps. -/
def SpecialTraps (o : Options) (m a : Reginfo w nvr) : Prop :=
  Insn.divDot.matches m.prevInsn = true ∧ m.gregs risuCcr ≠ a.gregs risuCcr ∨
    CcrPasses o m a ∧ sameUnder o.mqMask (m.gregs risuMq) (a.gregs risuMq) = false

theorem SpecialTraps.congr {t : Reginfo w nvr} (hccr : s.gregs risuCcr = t.gregs risuCcr)
    (hmq : s.gregs risuMq = t.gregs risuMq) : SpecialTraps o m s ↔ SpecialTraps o m t := by
  simp only [SpecialTraps, CcrPasses, hccr, hmq]

theorem scanRest_traps : scanRest o signalCount m s = .error .trap ↔
    (Insn.div.matches m.prevInsn = true ∧ DivTraps m) ∧ SpecialPasses o m s ∧
      SpecialTraps o m s := by
  have hkeep : SpecialTraps o m (s.setGreg risuXer (m.gregs risuXer)) ↔ SpecialTraps o m s :=
    SpecialTraps.congr (setGreg_gregs_of_ne s (by decide) _) (setGreg_gregs_of_ne s (by decide) _)
  rw [scanRest_eq, bind_eq_error, bind_eq_error, bind_eq_error, ← hkeep]
  constructor
  · rintro (((hbefore | ⟨s₁, h₁, h⟩) | ⟨s₂, h₂, h⟩) | ⟨s₃, -, hafter⟩)
    · exact absurd hbefore stepsBeforeCcr_not_trap
    · obtain ⟨hpass, rfl⟩ := stepsBeforeCcr_ok h₁
      obtain ⟨hne, hdot, htrap⟩ := ccrStep_traps.mp h
      exact ⟨⟨div_of_divDot hdot, htrap⟩, hpass, .inl ⟨hdot, hne⟩⟩
    · obtain ⟨s₁, h₁, hccr⟩ := bind_eq_ok.mp h₂
      obtain ⟨hpass, rfl⟩ := stepsBeforeCcr_ok h₁
      obtain ⟨hmq, hdiv, htrap⟩ := mqStep_traps.mp h
      obtain rfl := ccrStep_ok hccr
      rw [setGreg_gregs_of_ne _ (by decide)] at hmq
      exact ⟨⟨hdiv, htrap⟩, hpass, .inr ⟨(ccrStep_isOk hdiv htrap).mp ⟨_, hccr⟩, hmq⟩⟩
    · exact absurd hafter stepsAfterMq_not_trap
  · rintro ⟨⟨hdiv, htrap⟩, hpass, hspecial⟩
    have hbefore := stepsBeforeCcr_of_passes hpass
    rcases hspecial with ⟨hdot, hne⟩ | ⟨hccr, hmq⟩
    · exact .inl (.inl (.inr ⟨_, hbefore, ccrStep_traps.mpr ⟨hne, hdot, htrap⟩⟩))
    · obtain ⟨s₂, h₂⟩ := (ccrStep_isOk hdiv htrap).mpr hccr
      refine .inl (.inr ⟨s₂, bind_eq_ok.mpr ⟨_, hbefore, h₂⟩, mqStep_traps.mpr ⟨?_, hdiv, htrap⟩⟩)
      obtain rfl := ccrStep_ok h₂
      rw [setGreg_gregs_of_ne _ (by decide)]
      exact hmq

end special

/-! ### The comparison as a whole -/

/-- The comparison comes as far as a division that traps: at the target register, or, with all
general-purpose registers and XER, LR and CTR passed, at CCR or MQ. -/
def ReachesTrap (o : Options) (m a : Reginfo w nvr) : Prop :=
  (TargetTraps m ∧ (∀ j < m.rt, GprPasses (localGregsMask o a) m a j) ∧
    m.gpr m.rt ≠ a.gpr m.rt ∧ masked (localGregsMask o a) m.rt = false) ∨
  (Insn.div.matches m.prevInsn = true ∧ DivTraps m) ∧
    (∀ j, GprPasses (localGregsMask o a) m a j) ∧ SpecialPasses o m a ∧ SpecialTraps o m a

theorem scan_traps (o : Options) (signalCount : ℕ) (m a : Reginfo w nvr) :
    scan o signalCount m a = .error .trap ↔ ReachesTrap o m a := by
  rw [scan, bind_eq_error, gprLoop_traps, ReachesTrap]
  refine or_congr Iff.rfl ?_
  constructor
  · rintro ⟨s, hs, hrest⟩
    have hl := gprLoop_like hs
    obtain ⟨hdiv, hpass, hspecial⟩ := scanRest_traps.mp hrest
    exact ⟨hdiv, (gprLoop_isOk (.inl hdiv)).mp ⟨s, hs⟩, (SpecialPasses.congr hl).mp hpass,
      (SpecialTraps.congr (hl.special _ (by decide)) (hl.special _ (by decide))).mp hspecial⟩
  · rintro ⟨hdiv, hgpr, hpass, hspecial⟩
    obtain ⟨s, hs⟩ := (gprLoop_isOk (.inl hdiv)).mpr hgpr
    have hl := gprLoop_like hs
    exact ⟨s, hs, scanRest_traps.mpr ⟨hdiv, (SpecialPasses.congr hl).mpr hpass,
      (SpecialTraps.congr (hl.special _ (by decide)) (hl.special _ (by decide))).mpr hspecial⟩⟩

/-- **When the comparison returns.**  It does, without a division that traps, exactly when it does
not come as far as one: what decides is the operands of the `div` or `divs` just executed, and
whether an earlier register ends the comparison. -/
theorem reginfoIsEq_total_iff (o : Options) (signalCount : ℕ) (m a : Reginfo w nvr) :
    reginfoIsEq o signalCount m a ≠ none ↔ ¬ ReachesTrap o m a := by
  rw [← scan_traps o signalCount, not_iff_not]
  rw [reginfoIsEq]
  split <;> simp_all

/-- A record right after `div r3,r4,r5`, with -2^63 in `r4` and MQ and -1 in `r5`. -/
def divMaster : Reginfo 32 0 where
  secondPrevInsn := 0
  prevInsn := 0x7c642a96
  faultingInsn := 0x5af0
  nextInsn := 0
  nip := 0
  gregs := fun j => if j.val = 4 then 0x80000000 else if j.val = 5 then 0xffffffff else 0
  fpregs := fun _ => 0
  fpscr := 0
  vrregs := Fin.elim0

/-- The apprentice's record has another quotient. -/
def divApprentice : Reginfo 32 0 := divMaster.setGreg ⟨3, by decide⟩ 1

/-- The same instruction on 64 bits, with a divisor whose low word is 0. -/
def divMasterWide : Reginfo 64 0 where
  secondPrevInsn := 0
  prevInsn := 0x7c642a96
  faultingInsn := 0x5af0
  nextInsn := 0
  nip := 0
  gregs := fun j => if j.val = 5 then 0x100000000 else 0
  fpregs := fun _ => 0
  fpscr := 0
  vrregs := Fin.elim0

def divApprenticeWide : Reginfo 64 0 := divMasterWide.setGreg ⟨3, by decide⟩ 1

/-- Both divisions trap: one for its quotient, one for its divisor. -/
theorem reginfoIsEq_div_traps :
    reginfoIsEq Options.default 1 divMaster divApprentice = none ∧
      reginfoIsEq Options.default 1 divMasterWide divApprenticeWide = none :=
  ⟨rfl, rfl⟩

end Risu.Ppc64
