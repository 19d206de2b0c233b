import Risu.Lib.Bits
import Risu.Ppc64.Compare

/-!
# Relaxing an option never rejects more

`Relaxes S T`: the options `T` tolerate what `S` tolerates, with more option bits and smaller masks.
The comparisons under `S` and `T` are run side by side.  In the GPR loop the two records can drift
apart, because `T` may leave out a register that `S` copies, but only in general-purpose registers
already passed, which nothing reads again (`Like`, `GprLoop`).  In the other steps both runs copy
the same values, so that each step of `T` sees what the step of `S` saw.

`reginfoIsEq_mono` is the result.
-/

namespace Risu.Ppc64

open Lib

variable {w nvr : ℕ}

structure Relaxes (S T : Options) : Prop where
  fpOpts : S.fpOpts &&& T.fpOpts = S.fpOpts
  cpuOpts : S.cpuOpts &&& T.cpuOpts = S.cpuOpts
  gregsMask : T.gregsMask &&& S.gregsMask = T.gregsMask
  xerMask : T.xerMask &&& S.xerMask = T.xerMask
  ccrMask : T.ccrMask &&& S.ccrMask = T.ccrMask
  mqMask : T.mqMask &&& S.mqMask = T.mqMask
  fpscrMask : T.fpscrMask &&& S.fpscrMask = T.fpscrMask
  fpregsMask : T.fpregsMask &&& S.fpregsMask = T.fpregsMask
  vrregsMask : T.vrregsMask &&& S.vrregsMask = T.vrregsMask

/-! ### Masks -/

theorem masked_mono {x y : BitVec 32} (h : BitSubset x y) {i : ℕ} (hy : masked y i = true) :
    masked x i = true := by
  simp only [masked, bne_iff_ne] at hy ⊢
  exact h.and_not_ne_zero hy

theorem sameUnder_mono {x y : BitVec 32} (h : BitSubset x y) {u v : BitVec w}
    (hy : sameUnder y u v = true) : sameUnder x u v = true := by
  simp only [sameUnder, beq_iff_eq] at hy ⊢
  exact (h.setWidth w).and_eq hy

theorem copyField_mono {x y x' y' : BitVec 32} (h : BitSubset x y) (h' : BitSubset x' y')
    (src dst : ℕ) : BitSubset (copyField x x' src dst) (copyField y y' src dst) :=
  (h.and (.refl _)).or (((h'.ushiftRight _).and (.refl _)).shiftLeft _)

theorem localGregsMask_mono {S T : Options} (h : Relaxes S T) (a : Reginfo w nvr) :
    BitSubset (localGregsMask T a) (localGregsMask S a) := by
  unfold localGregsMask
  split_ifs
  · exact (BitSubset.of_and_eq h.gregsMask).and (.refl _)
  · exact .of_and_eq h.gregsMask

/-- The CCR masks exist together, and the relaxed one is smaller. -/
theorem ccrMaskAfter_mono {S T : Options} (h : Relaxes S T) {m : Reginfo w nvr} {y : BitVec 32}
    (hy : ccrMaskAfter S m = some y) : ∃ x, ccrMaskAfter T m = some x ∧ BitSubset x y := by
  have hccr := BitSubset.of_and_eq h.ccrMask
  have hfpscr := BitSubset.of_and_eq h.fpscrMask
  rw [ccrMaskAfter] at hy ⊢
  split_ifs at hy ⊢ with h₁ h₂ h₃
  · cases hy
    exact ⟨_, rfl, (copyField_mono hccr hccr _ _).and hccr⟩
  · cases hy
    exact ⟨_, rfl, (copyField_mono hccr hfpscr _ _).and hccr⟩
  · obtain ⟨undef, hdiv, rfl⟩ := Option.map_eq_some_iff.mp hy
    refine ⟨_, Option.map_eq_some_iff.mpr ⟨undef, hdiv, rfl⟩, ?_⟩
    cases undef
    · exact hccr
    · exact (BitSubset.refl _).and hccr
  · cases hy
    exact ⟨_, rfl, hccr⟩

/-! ### Records that differ in general-purpose registers only -/

structure Like (s t : Reginfo w nvr) : Prop where
  special : ∀ j : Fin 41, 32 ≤ j.val → s.gregs j = t.gregs j
  fpregs : s.fpregs = t.fpregs
  fpscr : s.fpscr = t.fpscr
  vrregs : s.vrregs = t.vrregs

theorem setGreg_gregs_self (a : Reginfo w nvr) (j : Fin 41) (v : BitVec w) :
    (a.setGreg j v).gregs j = v := by
  simp [Reginfo.setGreg]

theorem setGreg_gregs_of_ne (a : Reginfo w nvr) {j k : Fin 41} (h : k ≠ j) (v : BitVec w) :
    (a.setGreg j v).gregs k = a.gregs k := by
  simp [Reginfo.setGreg, h]

theorem gprIndex_injective : Function.Injective gprIndex := by
  intro i j h
  simpa [gprIndex, Fin.ext_iff] using h

/-- A special register is no general-purpose register. -/
theorem ne_gprIndex {j : Fin 41} (hj : 32 ≤ j.val) (i : Fin 32) : j ≠ gprIndex i := by
  intro h
  have := congrArg Fin.val h
  simp only [gprIndex, Fin.val_castLE] at this
  omega

namespace Like

variable {s t : Reginfo w nvr}

theorem setGreg (h : Like s t) (j : Fin 41) (v : BitVec w) :
    Like (s.setGreg j v) (t.setGreg j v) where
  special k hk := by
    by_cases hkj : k = j
    · subst hkj
      rw [setGreg_gregs_self, setGreg_gregs_self]
    · rw [setGreg_gregs_of_ne s hkj, setGreg_gregs_of_ne t hkj, h.special k hk]
  fpregs := h.fpregs
  fpscr := h.fpscr
  vrregs := h.vrregs

theorem setGpr_left (h : Like s t) (i : Fin 32) (v : BitVec w) :
    Like (s.setGreg (gprIndex i) v) t where
  special k hk := by rw [setGreg_gregs_of_ne s (ne_gprIndex hk i), h.special k hk]
  fpregs := h.fpregs
  fpscr := h.fpscr
  vrregs := h.vrregs

theorem setFpscr (h : Like s t) (v : BitVec w) :
    Like { s with fpscr := v } { t with fpscr := v } where
  special := h.special
  fpregs := h.fpregs
  fpscr := rfl
  vrregs := h.vrregs

theorem setFpreg (h : Like s t) (i : Fin 32) (v : BitVec 64) :
    Like (s.setFpreg i v) (t.setFpreg i v) where
  special := h.special
  fpregs := by simp only [Reginfo.setFpreg, h.fpregs]
  fpscr := h.fpscr
  vrregs := h.vrregs

theorem setVrreg (h : Like s t) (i : Fin nvr) (v : Fin 4 → BitVec 32) :
    Like (s.setVrreg i v) (t.setVrreg i v) where
  special := h.special
  fpregs := h.fpregs
  fpscr := h.fpscr
  vrregs := by simp only [Reginfo.setVrreg, h.vrregs]

end Like

/-! ### The GPR loop -/

/-- The two records agree on what the rest of the GPR loop reads. -/
structure GprLoop (L : List (Fin 32)) (s t : Reginfo w nvr) : Prop where
  like : Like s t
  nodup : L.Nodup
  gpr : ∀ i ∈ L, s.gpr i = t.gpr i

/-- What a step of the loop accepts is decided by the register it is about and the pc. -/
theorem gprTolerated_congr {m s t : Reginfo w nvr} {i : Fin 32} (hi : s.gpr i = t.gpr i)
    (hnip : s.gregs risuNip = t.gregs risuNip) : gprTolerated m s i = gprTolerated m t i := by
  have hmflr : mflrRelative m s i = mflrRelative m t i := by simp only [mflrRelative, hi, hnip]
  have hlscbx : lscbxTail m s i = lscbxTail m t i := by simp only [lscbxTail, hi]
  rw [gprTolerated, gprTolerated, hmflr, hlscbx]

theorem gregStep_sim {maskS maskT : BitVec 32} (hmask : BitSubset maskT maskS)
    {m s t s' : Reginfo w nvr} {i : Fin 32} {L : List (Fin 32)} (h : GprLoop (i :: L) s t)
    (hs : gregStep maskS m s i = .ok s') :
    ∃ t', gregStep maskT m t i = .ok t' ∧ GprLoop L s' t' := by
  obtain ⟨hlike, hnodup, hgpr⟩ := h
  obtain ⟨hnotin, hnodup⟩ := List.nodup_cons.mp hnodup
  have hi : s.gpr i = t.gpr i := hgpr i List.mem_cons_self
  have hrest : ∀ j ∈ L, s.gpr j = t.gpr j := fun j hj => hgpr j (List.mem_cons_of_mem i hj)
  have hnip := hlike.special risuNip (by decide)
  have hother : ∀ (r : Reginfo w nvr) (v : BitVec w), ∀ j ∈ L,
      (r.setGreg (gprIndex i) v).gpr j = r.gpr j := by
    intro r v j hj
    apply setGreg_gregs_of_ne
    intro hji
    exact hnotin (gprIndex_injective hji ▸ hj)
  have hkeep : GprLoop L s t := ⟨hlike, hnodup, hrest⟩
  rw [gregStep] at hs ⊢
  rw [← hi, ← gprTolerated_congr hi hnip]
  by_cases heq : m.gpr i = s.gpr i
  · rw [if_pos heq] at hs ⊢
    cases hs
    exact ⟨t, rfl, hkeep⟩
  rw [if_neg heq] at hs ⊢
  by_cases hS : masked maskS i = true
  · rw [if_pos hS] at hs
    rw [if_pos (masked_mono hmask hS)]
    cases hs
    exact ⟨t, rfl, hkeep⟩
  rw [if_neg hS] at hs
  obtain ⟨htol, rfl⟩ : gprTolerated m s i = some true ∧ s.setGreg (gprIndex i) (m.gpr i) = s' := by
    split at hs <;> simp_all
  by_cases hT : masked maskT i = true
  · -- copied under `S`, left out under `T`
    rw [if_pos hT]
    exact ⟨t, rfl, hlike.setGpr_left i _, hnodup, fun j hj => by rw [hother s _ j hj, hrest j hj]⟩
  · rw [if_neg hT, htol]
    exact ⟨_, rfl, hlike.setGreg _ _, hnodup, fun j hj => by
      rw [hother s _ j hj, hother t _ j hj, hrest j hj]⟩

/-! ### The steps after the GPR loop -/

section rest

variable {S T : Options} {m s t s' : Reginfo w nvr}

theorem xerStep_sim (h : Relaxes S T) (hl : Like s t) (hs : xerStep S m s = .ok s') :
    ∃ t', xerStep T m t = .ok t' ∧ Like s' t' := by
  have hxer := hl.special risuXer (by decide)
  rw [xerStep] at hs ⊢
  rw [← hxer]
  split_ifs at hs with heq hsame
  · cases hs
    exact ⟨t, by rw [if_pos heq], hl⟩
  · cases hs
    rw [if_neg heq, if_pos (sameUnder_mono (.of_and_eq h.xerMask) hsame)]
    exact ⟨_, rfl, hl.setGreg _ _⟩

theorem lnkStep_sim (hl : Like s t) (hs : lnkStep m s = .ok s') :
    ∃ t', lnkStep m t = .ok t' ∧ Like s' t' := by
  rw [lnkStep] at hs ⊢
  rw [← hl.special risuLnk (by decide), ← hl.special risuNip (by decide)]
  split_ifs at hs ⊢
  cases hs
  exact ⟨t, rfl, hl⟩

theorem ctrStep_sim (hl : Like s t) (hs : ctrStep m s = .ok s') :
    ∃ t', ctrStep m t = .ok t' ∧ Like s' t' := by
  rw [ctrStep] at hs ⊢
  rw [← hl.special risuCtr (by decide)]
  split_ifs at hs ⊢
  cases hs
  exact ⟨t, rfl, hl⟩

theorem ccrStep_sim (h : Relaxes S T) (hl : Like s t) (hs : ccrStep S m s = .ok s') :
    ∃ t', ccrStep T m t = .ok t' ∧ Like s' t' := by
  rw [ccrStep] at hs ⊢
  rw [← hl.special risuCcr (by decide)]
  split_ifs at hs with heq
  · cases hs
    exact ⟨t, by rw [if_pos heq], hl⟩
  · rw [if_neg heq]
    cases hy : ccrMaskAfter S m with
    | none => simp [hy] at hs
    | some y =>
      obtain ⟨x, hx, hxy⟩ := ccrMaskAfter_mono h hy
      simp only [hy] at hs
      split_ifs at hs with hsame
      cases hs
      rw [hx]
      simp only [sameUnder_mono hxy hsame, if_true]
      exact ⟨_, rfl, hl.setGreg _ _⟩

theorem mqTolerated_mono (h : Relaxes S T) (n : ℕ) (hmq : s.gregs risuMq = t.gregs risuMq)
    (hs : mqTolerated S n m s = some true) : mqTolerated T n m t = some true := by
  have h601 : S.use601 = true → T.use601 = true := by
    simp only [Options.use601, bne_iff_ne]
    exact (BitSubset.of_and_eq h.cpuOpts).and_ne_zero
  have hmask := BitSubset.of_and_eq h.mqMask
  rw [mqTolerated] at hs ⊢
  rw [← hmq]
  by_cases hT : sameUnder T.mqMask (m.gregs risuMq) (s.gregs risuMq) = true
  · simp [hT]
  · have hS : ¬ sameUnder S.mqMask (m.gregs risuMq) (s.gregs risuMq) = true :=
      fun hS => hT (sameUnder_mono hmask hS)
    rw [if_neg hS] at hs
    rw [if_neg hT]
    obtain ⟨undef, hdiv, hs⟩ := Option.bind_eq_some_iff.mp hs
    refine Option.bind_eq_some_iff.mpr ⟨undef, hdiv, ?_⟩
    cases undef with
    | true => rfl
    | false =>
      simp only [Bool.false_eq_true, if_false, pure, Option.some.injEq, Bool.or_eq_true,
        Bool.and_eq_true] at hs ⊢
      exact hs.imp_left fun ⟨hu, hw⟩ => ⟨h601 hu, hw⟩

theorem mqStep_sim (h : Relaxes S T) (n : ℕ) (hl : Like s t) (hs : mqStep S n m s = .ok s') :
    ∃ t', mqStep T n m t = .ok t' ∧ Like s' t' := by
  have hmq := hl.special risuMq (by decide)
  rw [mqStep] at hs ⊢
  rw [← hmq]
  split_ifs at hs with heq
  · cases hs
    exact ⟨t, by rw [if_pos heq], hl⟩
  · obtain ⟨htol, rfl⟩ : mqTolerated S n m s = some true ∧
        s.setGreg risuMq (m.gregs risuMq) = s' := by
      split at hs <;> simp_all
    rw [if_neg heq, mqTolerated_mono h n hmq htol]
    exact ⟨_, rfl, hl.setGreg _ _⟩

theorem fpscrStep_sim (h : Relaxes S T) (hl : Like s t) (hs : fpscrStep S m s = .ok s') :
    ∃ t', fpscrStep T m t = .ok t' ∧ Like s' t' := by
  rw [fpscrStep] at hs ⊢
  rw [← hl.fpscr]
  split_ifs at hs with heq hsame
  · cases hs
    exact ⟨t, by rw [if_pos heq], hl⟩
  · cases hs
    rw [if_neg heq, if_pos (sameUnder_mono (.of_and_eq h.fpscrMask) hsame)]
    exact ⟨_, rfl, hl.setFpscr _⟩

/-- More option bits and fewer compared registers tolerate more. -/
theorem fprTolerated_mono (h : Relaxes S T) {c : Fpr} (hS : fprTolerated S c = true) :
    fprTolerated T c = true := by
  simp only [fprTolerated, Bool.or_eq_true, List.any_eq_true] at hS ⊢
  refine hS.imp (masked_mono (.of_and_eq h.fpregsMask)) ?_
  intro hany
  obtain ⟨clause, hmem, hS⟩ := hany
  refine ⟨clause, hmem, ?_⟩
  simp only [Clause.tolerates, Bool.and_eq_true, bne_iff_ne] at hS ⊢
  exact ⟨(BitSubset.of_and_eq h.fpOpts).and_ne_zero hS.1, hS.2⟩

theorem fprStep_sim (h : Relaxes S T) {i : Fin 32} (hl : Like s t)
    (hs : fprStep S m s i = .ok s') : ∃ t', fprStep T m t i = .ok t' ∧ Like s' t' := by
  have hat : fprAt m s i = fprAt m t i := by simp only [fprAt, hl.fpregs]
  rw [fprStep] at hs ⊢
  rw [← hl.fpregs, ← hat]
  split_ifs at hs with heq htol
  · cases hs
    exact ⟨t, by rw [if_pos heq], hl⟩
  · cases hs
    rw [if_neg heq, if_pos (fprTolerated_mono h htol)]
    exact ⟨_, rfl, hl.setFpreg _ _⟩

theorem vrStep_sim (h : Relaxes S T) {i : Fin nvr} (hl : Like s t)
    (hs : vrStep S m s i = .ok s') : ∃ t', vrStep T m t i = .ok t' ∧ Like s' t' := by
  rw [vrStep] at hs ⊢
  rw [← hl.vrregs]
  split_ifs at hs with heq hmask
  · cases hs
    exact ⟨t, by rw [if_pos heq], hl⟩
  · cases hs
    rw [if_neg heq, if_pos (masked_mono (.of_and_eq h.vrregsMask) hmask)]
    exact ⟨_, rfl, hl.setVrreg _ _⟩

theorem scanRest_sim (h : Relaxes S T) (n : ℕ) (hl : Like s t) (hs : scanRest S n m s = .ok s') :
    ∃ t', scanRest T n m t = .ok t' := by
  obtain ⟨s₁, h₁, hs⟩ := bind_eq_ok.mp hs
  obtain ⟨s₂, h₂, hs⟩ := bind_eq_ok.mp hs
  obtain ⟨s₃, h₃, hs⟩ := bind_eq_ok.mp hs
  obtain ⟨s₄, h₄, hs⟩ := bind_eq_ok.mp hs
  obtain ⟨s₅, h₅, hs⟩ := bind_eq_ok.mp hs
  obtain ⟨s₆, h₆, hs⟩ := bind_eq_ok.mp hs
  obtain ⟨s₇, h₇, hs⟩ := bind_eq_ok.mp hs
  obtain ⟨t₁, g₁, hl⟩ := xerStep_sim h hl h₁
  obtain ⟨t₂, g₂, hl⟩ := lnkStep_sim hl h₂
  obtain ⟨t₃, g₃, hl⟩ := ctrStep_sim hl h₃
  obtain ⟨t₄, g₄, hl⟩ := ccrStep_sim h hl h₄
  obtain ⟨t₅, g₅, hl⟩ := mqStep_sim h n hl h₅
  obtain ⟨t₆, g₆, hl⟩ := fpscrStep_sim h hl h₆
  obtain ⟨t₇, g₇, hl⟩ := foldlM_sim (g := fprStep T m) (R := fun _ => Like)
    (fun _ _ _ _ _ hl hs => fprStep_sim h hl hs) hl h₇
  obtain ⟨t', g₈, -⟩ := foldlM_sim (g := vrStep T m) (R := fun _ => Like)
    (fun _ _ _ _ _ hl hs => vrStep_sim h hl hs) hl hs
  refine ⟨t', ?_⟩
  rw [scanRest]
  simp only [g₁, g₂, g₃, g₄, g₅, g₆, g₇, g₈, bind, Except.bind]

end rest

/-- **Relaxing an option never turns an accepted comparison into a rejected one.** -/
theorem reginfoIsEq_mono {S T : Options} (h : Relaxes S T) (signalCount : ℕ)
    (m a a' : Reginfo w nvr) (hS : reginfoIsEq S signalCount m a = some (true, a')) :
    ∃ b, reginfoIsEq T signalCount m a = some (true, b) := by
  simp only [reginfoIsEq_true] at hS ⊢
  obtain ⟨s, hgpr, hrest⟩ := bind_eq_ok.mp hS
  have hstart : GprLoop (List.finRange 32) a a :=
    ⟨⟨fun _ _ => rfl, rfl, rfl, rfl⟩, List.nodup_finRange 32, fun _ _ => rfl⟩
  obtain ⟨t, ht, hloop⟩ := foldlM_sim (g := gregStep (localGregsMask T a) m) (R := GprLoop)
    (fun _ _ _ _ _ hl hs => gregStep_sim (localGregsMask_mono h a) hl hs) hstart hgpr
  obtain ⟨b, hb⟩ := scanRest_sim h signalCount hloop.like hrest
  exact ⟨b, bind_eq_ok.mpr ⟨t, ht, hb⟩⟩

/-- The default options, relaxed in an option bit and in a register that is left out. -/
def relaxedOptions : Options :=
  { Options.default with fpOpts := 0x00000020, fpregsMask := 0x7fffffff }

/-- What is accepted under the default options is accepted under the relaxed ones. -/
theorem reginfoIsEq_mono_mflr :
    Relaxes .default relaxedOptions ∧
    ∃ b, reginfoIsEq relaxedOptions 1 mflrMaster mflrApprentice = some (true, b) := by
  have h : Relaxes .default relaxedOptions := by
    constructor <;> decide
  obtain ⟨a, ha⟩ := mflr_accepted
  exact ⟨h, reginfoIsEq_mono h 1 _ _ a ha⟩

end Risu.Ppc64
