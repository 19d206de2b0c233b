import Risu.Ppc64.Monotone

/-!
# What a comparison establishes (`reginfo_is_eq`)

Each step of the comparison is inverted once: what it requires, and what it leaves behind.

* `Matches mask m a` — the two records agree in every register that is compared, with the
  general-purpose registers that `mask` selects;
* `scan_matches`, `scan_differs` — an accepted comparison leaves two records that match, a rejected
  one two that do not;
* `Accepted`, `scan_accepted` — what an accepted comparison says about the values before the call;
* `reginfoIsEq_of_matches` — records that match are accepted and left as they are.
-/

namespace Risu.Ppc64

open Lib

variable {w nvr : ℕ}

/-! ### One step at a time -/

section steps

variable {o : Options} {m s s' : Reginfo w nvr}

theorem setGreg_self (s : Reginfo w nvr) (j : Fin 41) : s.setGreg j (s.gregs j) = s := by
  simp [Reginfo.setGreg]

theorem setGreg_of_eq {j : Fin 41} (h : m.gregs j = s.gregs j) : s = s.setGreg j (m.gregs j) := by
  rw [h, setGreg_self]

/-- An accepted general-purpose register is equal, left out, or tolerated; unless it is left out, it
is equal afterwards. -/
theorem gregStep_ok {mask : BitVec 32} {i : Fin 32} (h : gregStep mask m s i = .ok s') :
    (m.gpr i = s.gpr i ∨ masked mask i = true ∨ gprTolerated m s i = some true) ∧
      ∃ v, s' = s.setGreg (gprIndex i) v ∧ (masked mask i = false → m.gpr i = v) := by
  have hself : s = s.setGreg (gprIndex i) (s.gpr i) := (setGreg_self s _).symm
  rw [gregStep] at h
  split_ifs at h with heq hmask
  · cases h
    exact ⟨.inl heq, _, hself, fun _ => heq⟩
  · cases h
    exact ⟨.inr (.inl hmask), _, hself, fun hm => by simp [hmask] at hm⟩
  · split at h
    · cases h
    · rename_i htol
      cases h
      exact ⟨.inr (.inr htol), _, rfl, fun _ => rfl⟩
    · cases h

theorem xerStep_ok (h : xerStep o m s = .ok s') :
    sameUnder o.xerMask (m.gregs risuXer) (s.gregs risuXer) = true ∧
      s' = s.setGreg risuXer (m.gregs risuXer) := by
  rw [xerStep] at h
  split_ifs at h with heq hsame
  · cases h
    exact ⟨by simp [sameUnder, heq], setGreg_of_eq heq⟩
  · cases h
    exact ⟨hsame, rfl⟩

theorem lnkStep_ok (h : lnkStep m s = .ok s') :
    m.gregs risuLnk - m.gregs risuNip = s.gregs risuLnk - s.gregs risuNip ∧ s' = s := by
  rw [lnkStep] at h
  split_ifs at h with heq
  cases h
  exact ⟨heq, rfl⟩

theorem ctrStep_ok (h : ctrStep m s = .ok s') : m.gregs risuCtr = s.gregs risuCtr ∧ s' = s := by
  rw [ctrStep] at h
  split_ifs at h with heq
  cases h
  exact ⟨heq, rfl⟩

theorem ccrStep_ok (h : ccrStep o m s = .ok s') : s' = s.setGreg risuCcr (m.gregs risuCcr) := by
  rw [ccrStep] at h
  split_ifs at h with heq
  · cases h
    exact setGreg_of_eq heq
  · split at h
    · cases h
    · split_ifs at h
      cases h
      rfl

theorem mqStep_ok {n : ℕ} (h : mqStep o n m s = .ok s') :
    s' = s.setGreg risuMq (m.gregs risuMq) := by
  rw [mqStep] at h
  split_ifs at h with heq
  · cases h
    exact setGreg_of_eq heq
  · split at h
    · cases h
    · cases h
      rfl
    · cases h

theorem fpscrStep_ok (h : fpscrStep o m s = .ok s') :
    sameUnder o.fpscrMask m.fpscr s.fpscr = true ∧ s' = { s with fpscr := m.fpscr } := by
  rw [fpscrStep] at h
  split_ifs at h with heq hsame
  · cases h
    exact ⟨by simp [sameUnder, heq], by rw [heq]⟩
  · cases h
    exact ⟨hsame, rfl⟩

/-- An accepted floating-point register is equal or tolerated, and equal afterwards. -/
theorem fprStep_ok {i : Fin 32} (h : fprStep o m s i = .ok s') :
    (m.fpregs i = s.fpregs i ∨ fprTolerated o (fprAt m s i) = true) ∧
      s' = s.setFpreg i (m.fpregs i) := by
  rw [fprStep] at h
  split_ifs at h with heq htol
  · cases h
    exact ⟨.inl heq, by simp [Reginfo.setFpreg, heq]⟩
  · cases h
    exact ⟨.inr htol, rfl⟩

theorem vrStep_ok {i : Fin nvr} (h : vrStep o m s i = .ok s') :
    s' = s.setVrreg i (m.vrregs i) := by
  rw [vrStep] at h
  split_ifs at h with heq hmask
  · cases h
    rw [funext heq]
    simp [Reginfo.setVrreg]
  · cases h
    rfl

end steps

/-! ### Records that match -/

/-- The two records hold the same values in every register that is compared, with the
general-purpose registers selected by a mask. -/
structure Matches (mask : BitVec 32) (m a : Reginfo w nvr) : Prop where
  gpr : ∀ i : Fin 32, masked mask i = false → m.gpr i = a.gpr i
  xer : m.gregs risuXer = a.gregs risuXer
  lnk : m.gregs risuLnk - m.gregs risuNip = a.gregs risuLnk - a.gregs risuNip
  ctr : m.gregs risuCtr = a.gregs risuCtr
  ccr : m.gregs risuCcr = a.gregs risuCcr
  mq : m.gregs risuMq = a.gregs risuMq
  fpscr : m.fpscr = a.fpscr
  fpregs : ∀ i, m.fpregs i = a.fpregs i
  vrregs : ∀ i j, m.vrregs i j = a.vrregs i j

theorem SameRegisters.matches {m a : Reginfo w nvr} (h : SameRegisters m a) (mask : BitVec 32) :
    Matches mask m a :=
  ⟨fun i _ => h.gpr i, h.xer, h.lnk, h.ctr, h.ccr, h.mq, h.fpscr, fun i => congrFun h.fpregs i,
    fun i j => congrFun (congrFun h.vrregs i) j⟩

/-- The mask in force on an illegal instruction selects no further registers. -/
theorem localGregsMask_subset (o : Options) (a : Reginfo w nvr) :
    BitSubset (localGregsMask o a) o.gregsMask := by
  rw [localGregsMask]
  split_ifs
  · exact .of_and_eq (by rw [BitVec.and_assoc, BitVec.and_comm _ o.gregsMask, ← BitVec.and_assoc,
      BitVec.and_self])
  · exact .refl _

theorem masked_localGregsMask {o : Options} (a : Reginfo w nvr) {i : ℕ}
    (h : masked (localGregsMask o a) i = false) : masked o.gregsMask i = false := by
  by_contra hmask
  rw [Bool.not_eq_false] at hmask
  rw [masked_mono (localGregsMask_subset o a) hmask] at h
  cases h

/-- **Records that match are accepted**, under any options that select the same general-purpose
registers, and are left as they are. -/
theorem reginfoIsEq_of_matches (o : Options) (signalCount : ℕ) {m a : Reginfo w nvr}
    (h : Matches o.gregsMask m a) : reginfoIsEq o signalCount m a = some (true, a) := by
  have hgreg : ∀ i, gregStep (localGregsMask o a) m a i = .ok a := by
    intro i
    rw [gregStep]
    split_ifs with heq hmask
    · rfl
    · rfl
    · exact absurd (h.gpr i (masked_localGregsMask a (by simpa using hmask))) heq
  have hfpr := foldlM_ok (f := fprStep o m) (s := a) (fun i => by simp [fprStep, h.fpregs])
    (List.finRange 32)
  have hvr := foldlM_ok (f := vrStep o m) (s := a) (fun i => by simp [vrStep, h.vrregs])
    (List.finRange nvr)
  rw [reginfoIsEq_true, scan, foldlM_ok hgreg]
  simp [scanRest, xerStep, lnkStep, ctrStep, ccrStep, mqStep, fpscrStep, bind, Except.bind, h.xer,
    h.lnk, h.ctr, h.ccr, h.mq, h.fpscr, hfpr, hvr]

/-- **Equal registers are accepted under any options**, whatever the instructions and the pc. -/
theorem reginfoIsEq_of_same (o : Options) (signalCount : ℕ) {m a : Reginfo w nvr}
    (h : SameRegisters m a) : reginfoIsEq o signalCount m a = some (true, a) :=
  reginfoIsEq_of_matches o signalCount (h.matches o.gregsMask)

/-! ### The loops -/

section loops

variable {o : Options} {m a s s' : Reginfo w nvr}

/-- A step of the GPR loop keeps what is still to be compared as it was. -/
theorem gregStep_keeps {mask : BitVec 32} {i : Fin 32} {L : List (Fin 32)}
    (h : GprLoop (i :: L) s a) (hs : gregStep mask m s i = .ok s') : GprLoop L s' a := by
  obtain ⟨hnotin, hnodup⟩ := List.nodup_cons.mp h.nodup
  obtain ⟨-, v, rfl, -⟩ := gregStep_ok hs
  refine ⟨h.like.setGpr_left i v, hnodup, fun j hj => ?_⟩
  rw [← h.gpr j (List.mem_cons_of_mem i hj)]
  apply setGreg_gregs_of_ne
  intro hji
  exact hnotin (gprIndex_injective hji ▸ hj)

/-- The registers the GPR loop has passed are equal, unless they are left out. -/
def GprDone (mask : BitVec 32) (m : Reginfo w nvr) (L : List (Fin 32)) (s : Reginfo w nvr) : Prop :=
  ∀ i, i ∉ L → masked mask i = false → m.gpr i = s.gpr i

theorem gregStep_done {mask : BitVec 32} {i : Fin 32} {L : List (Fin 32)}
    (h : GprDone mask m (i :: L) s) (hs : gregStep mask m s i = .ok s') : GprDone mask m L s' := by
  obtain ⟨-, v, rfl, hv⟩ := gregStep_ok hs
  intro j hj hmask
  by_cases hji : j = i
  · subst hji
    exact (hv hmask).trans (setGreg_gregs_self s _ v).symm
  · have hne : gprIndex j ≠ gprIndex i := fun heq => hji (gprIndex_injective heq)
    rw [h j (by simp [hji, hj]) hmask]
    exact (setGreg_gregs_of_ne s hne v).symm

/-- The FPR loop still sees the values of `f` at the registers to come. -/
structure FprLoop (f : Fin 32 → BitVec 64) (L : List (Fin 32)) (s : Reginfo w nvr) : Prop where
  nodup : L.Nodup
  fpr : ∀ i ∈ L, s.fpregs i = f i

theorem fprStep_keeps {f : Fin 32 → BitVec 64} {i : Fin 32} {L : List (Fin 32)}
    (h : FprLoop f (i :: L) s) (hs : fprStep o m s i = .ok s') : FprLoop f L s' := by
  obtain ⟨hnotin, hnodup⟩ := List.nodup_cons.mp h.nodup
  obtain ⟨-, rfl⟩ := fprStep_ok hs
  refine ⟨hnodup, fun j hj => ?_⟩
  rw [← h.fpr j (List.mem_cons_of_mem i hj)]
  have hji : j ≠ i := fun hji => hnotin (hji ▸ hj)
  simp [Reginfo.setFpreg, hji]

/-- The FPR loop copies the registers of the master and nothing else. -/
theorem fprLoop_ok (h : (List.finRange 32).foldlM (fprStep o m) s = .ok s') :
    s' = { s with fpregs := m.fpregs } := by
  obtain ⟨⟨hframe, hdone⟩, -⟩ := foldlM_visits
    (I := fun L t => t = { s with fpregs := t.fpregs } ∧ ∀ i, i ∉ L → t.fpregs i = m.fpregs i)
    (fun i L t t' hI hstep => by
      obtain ⟨hframe, hdone⟩ := hI
      obtain ⟨-, rfl⟩ := fprStep_ok hstep
      refine ⟨by rw [hframe]; rfl, fun j hj => ?_⟩
      by_cases hji : j = i
      · simp [Reginfo.setFpreg, hji]
      · simpa [Reginfo.setFpreg, hji] using hdone j (by simp [hji, hj]))
    ⟨rfl, fun i hi => absurd (List.mem_finRange i) hi⟩ h
  rw [hframe, funext fun i => hdone i (by simp)]

/-- The loop over the vector registers does the same for them. -/
theorem vrLoop_ok (h : (List.finRange nvr).foldlM (vrStep o m) s = .ok s') :
    s' = { s with vrregs := m.vrregs } := by
  obtain ⟨⟨hframe, hdone⟩, -⟩ := foldlM_visits
    (I := fun L t => t = { s with vrregs := t.vrregs } ∧ ∀ i, i ∉ L → t.vrregs i = m.vrregs i)
    (fun i L t t' hI hstep => by
      obtain ⟨hframe, hdone⟩ := hI
      obtain rfl := vrStep_ok hstep
      refine ⟨by rw [hframe]; rfl, fun j hj => ?_⟩
      by_cases hji : j = i
      · simp [Reginfo.setVrreg, hji]
      · simpa [Reginfo.setVrreg, hji] using hdone j (by simp [hji, hj]))
    ⟨rfl, fun i hi => absurd (List.mem_finRange i) hi⟩ h
  rw [hframe, funext fun i => hdone i (by simp)]

end loops

/-! ### The comparison as a whole -/

/-- What an accepted comparison says about the values before the call. -/
structure Accepted (o : Options) (m a : Reginfo w nvr) : Prop where
  gpr : ∀ i, m.gpr i ≠ a.gpr i → masked (localGregsMask o a) i = false →
    ∃ t : Reginfo w nvr, gprTolerated m t i = some true
  xer : sameUnder o.xerMask (m.gregs risuXer) (a.gregs risuXer) = true
  lnk : m.gregs risuLnk - m.gregs risuNip = a.gregs risuLnk - a.gregs risuNip
  ctr : m.gregs risuCtr = a.gregs risuCtr
  fpscr : sameUnder o.fpscrMask m.fpscr a.fpscr = true
  fpr : ∀ i, m.fpregs i ≠ a.fpregs i →
    ∃ t : Reginfo w nvr, t.fpregs i = a.fpregs i ∧ fprTolerated o (fprAt m t i) = true

section scan

variable {o : Options} {signalCount : ℕ} {m a a' s : Reginfo w nvr}

/-- What the comparison after the GPR loop leaves behind. -/
def copied (m s : Reginfo w nvr) : Reginfo w nvr :=
  { ((s.setGreg risuXer (m.gregs risuXer)).setGreg risuCcr (m.gregs risuCcr)).setGreg risuMq
      (m.gregs risuMq) with
    fpscr := m.fpscr
    fpregs := m.fpregs
    vrregs := m.vrregs }

/-- Everything an accepted comparison does after the GPR loop. -/
theorem scanRest_ok (h : scanRest o signalCount m s = .ok a') :
    a' = copied m s ∧ sameUnder o.xerMask (m.gregs risuXer) (s.gregs risuXer) = true ∧
      m.gregs risuLnk - m.gregs risuNip = s.gregs risuLnk - s.gregs risuNip ∧
      m.gregs risuCtr = s.gregs risuCtr ∧ sameUnder o.fpscrMask m.fpscr s.fpscr = true ∧
      ∃ t t' : Reginfo w nvr, t.fpregs = s.fpregs ∧
        (List.finRange 32).foldlM (fprStep o m) t = .ok t' := by
  obtain ⟨s₁, h₁, h⟩ := bind_eq_ok.mp h
  obtain ⟨s₂, h₂, h⟩ := bind_eq_ok.mp h
  obtain ⟨s₃, h₃, h⟩ := bind_eq_ok.mp h
  obtain ⟨s₄, h₄, h⟩ := bind_eq_ok.mp h
  obtain ⟨s₅, h₅, h⟩ := bind_eq_ok.mp h
  obtain ⟨s₆, h₆, h⟩ := bind_eq_ok.mp h
  obtain ⟨s₇, h₇, h₈⟩ := bind_eq_ok.mp h
  obtain ⟨hxer, rfl⟩ := xerStep_ok h₁
  obtain ⟨hlnk, rfl⟩ := lnkStep_ok h₂
  obtain ⟨hctr, rfl⟩ := ctrStep_ok h₃
  obtain rfl := ccrStep_ok h₄
  obtain rfl := mqStep_ok h₅
  obtain ⟨hfpscr, rfl⟩ := fpscrStep_ok h₆
  have hfprs := fprLoop_ok h₇
  have hother : ∀ {j : Fin 41}, j ≠ risuXer →
      (s.setGreg risuXer (m.gregs risuXer)).gregs j = s.gregs j :=
    fun hne => setGreg_gregs_of_ne s hne _
  refine ⟨?_, hxer, ?_, ?_, hfpscr, _, _, ?_, h₇⟩
  · rw [vrLoop_ok h₈, hfprs]
    rfl
  · rw [hlnk, hother (by decide), hother (by decide)]
  · rw [hctr, hother (by decide)]
  · rfl

/-- The GPR loop sees each register as it was before the call. -/
theorem gprLoop_start (a : Reginfo w nvr) : GprLoop (List.finRange 32) a a :=
  ⟨⟨fun _ _ => rfl, rfl, rfl, rfl⟩, List.nodup_finRange 32, fun _ _ => rfl⟩

theorem scan_accepted (h : scan o signalCount m a = .ok a') : Accepted o m a := by
  obtain ⟨s, hgpr, hrest⟩ := bind_eq_ok.mp h
  obtain ⟨hend, hvisits⟩ := foldlM_visits (I := fun L s => GprLoop L s a)
    (fun _ _ _ _ hI hs => gregStep_keeps hI hs) (gprLoop_start a) hgpr
  have hlike := hend.like
  obtain ⟨-, hxer, hlnk, hctr, hfpscr, t, t', ht, hfprs⟩ := scanRest_ok hrest
  have hfpr : FprLoop a.fpregs (List.finRange 32) t :=
    ⟨List.nodup_finRange 32, fun i _ => by rw [ht, hlike.fpregs]⟩
  obtain ⟨-, hfvisits⟩ := foldlM_visits (I := FprLoop a.fpregs)
    (fun _ _ _ _ hI hs => fprStep_keeps hI hs) hfpr hfprs
  refine ⟨?_, ?_, ?_, ?_, ?_, ?_⟩
  · intro i hne hcounts
    obtain ⟨L, u, u', hI, hstep⟩ := hvisits i (List.mem_finRange i)
    have hui : u.gpr i = a.gpr i := hI.gpr i List.mem_cons_self
    obtain ⟨heq | hmasked | htol, -⟩ := gregStep_ok hstep
    · exact absurd (heq.trans hui) hne
    · simp [hcounts] at hmasked
    · exact ⟨u, htol⟩
  · rwa [hlike.special risuXer (by decide)] at hxer
  · rwa [hlike.special risuLnk (by decide), hlike.special risuNip (by decide)] at hlnk
  · rwa [hlike.special risuCtr (by decide)] at hctr
  · rwa [hlike.fpscr] at hfpscr
  · intro i hne
    obtain ⟨L, u, u', hI, hstep⟩ := hfvisits i (List.mem_finRange i)
    have hui : u.fpregs i = a.fpregs i := hI.fpr i List.mem_cons_self
    obtain ⟨heq | htol, -⟩ := fprStep_ok hstep
    · exact absurd (heq.trans hui) hne
    · exact ⟨u, hui, htol⟩

/-- An accepted comparison leaves two records that match. -/
theorem scan_matches (h : scan o signalCount m a = .ok a') :
    Matches (localGregsMask o a) m a' := by
  obtain ⟨s, hgpr, hrest⟩ := bind_eq_ok.mp h
  obtain ⟨hdone, -⟩ := foldlM_visits (I := GprDone (localGregsMask o a) m)
    (fun _ _ _ _ hI hs => gregStep_done hI hs) (fun i hi => absurd (List.mem_finRange i) hi) hgpr
  obtain ⟨rfl, -, hlnk, hctr, -⟩ := scanRest_ok hrest
  have hkeep : ∀ j : Fin 41, j ≠ risuXer → j ≠ risuCcr → j ≠ risuMq →
      (copied m s).gregs j = s.gregs j := by
    intro j hxer hccr hmq
    simp [copied, Reginfo.setGreg, hxer, hccr, hmq]
  refine ⟨?_, rfl, ?_, ?_, rfl, rfl, rfl, fun _ => rfl, fun _ _ => rfl⟩
  · intro i hmask
    rw [hdone i (by simp) hmask]
    exact (hkeep (gprIndex i) (ne_gprIndex (by decide) i).symm (ne_gprIndex (by decide) i).symm
      (ne_gprIndex (by decide) i).symm).symm
  · rw [hlnk, hkeep risuLnk (by decide) (by decide) (by decide),
      hkeep risuNip (by decide) (by decide) (by decide)]
  · rw [hctr, hkeep risuCtr (by decide) (by decide) (by decide)]

end scan

/-! ### A rejected comparison -/

section differ

variable {o : Options} {signalCount : ℕ} {m a a' s : Reginfo w nvr} {mask : BitVec 32}

theorem gregStep_differs {i : Fin 32} (h : gregStep mask m s i = .error (.differ a')) :
    ¬ Matches mask m a' := by
  rw [gregStep] at h
  split_ifs at h with heq hmask
  split at h
  · cases h
  · cases h
  · cases h
    exact fun hmatch => heq (hmatch.gpr i (by simpa using hmask))

theorem xerStep_differs (h : xerStep o m s = .error (.differ a')) : ¬ Matches mask m a' := by
  rw [xerStep] at h
  split_ifs at h with heq
  cases h
  exact fun hmatch => heq hmatch.xer

theorem lnkStep_differs (h : lnkStep m s = .error (.differ a')) : ¬ Matches mask m a' := by
  rw [lnkStep] at h
  split_ifs at h with heq
  cases h
  exact fun hmatch => heq hmatch.lnk

theorem ctrStep_differs (h : ctrStep m s = .error (.differ a')) : ¬ Matches mask m a' := by
  rw [ctrStep] at h
  split_ifs at h with heq
  cases h
  exact fun hmatch => heq hmatch.ctr

theorem ccrStep_differs (h : ccrStep o m s = .error (.differ a')) : ¬ Matches mask m a' := by
  rw [ccrStep] at h
  split_ifs at h with heq
  split at h
  · cases h
  · split_ifs at h
    cases h
    exact fun hmatch => heq hmatch.ccr

theorem mqStep_differs (h : mqStep o signalCount m s = .error (.differ a')) :
    ¬ Matches mask m a' := by
  rw [mqStep] at h
  split_ifs at h with heq
  split at h
  · cases h
  · cases h
  · cases h
    exact fun hmatch => heq hmatch.mq

theorem fpscrStep_differs (h : fpscrStep o m s = .error (.differ a')) : ¬ Matches mask m a' := by
  rw [fpscrStep] at h
  split_ifs at h with heq
  cases h
  exact fun hmatch => heq hmatch.fpscr

theorem fprStep_differs {i : Fin 32} (h : fprStep o m s i = .error (.differ a')) :
    ¬ Matches mask m a' := by
  rw [fprStep] at h
  split_ifs at h with heq
  cases h
  exact fun hmatch => heq (hmatch.fpregs i)

theorem vrStep_differs {i : Fin nvr} (h : vrStep o m s i = .error (.differ a')) :
    ¬ Matches mask m a' := by
  rw [vrStep] at h
  split_ifs at h with heq
  cases h
  exact fun hmatch => heq (hmatch.vrregs i)

/-- A rejected comparison leaves two records that do not match. -/
theorem scan_differs (h : scan o signalCount m a = .error (.differ a')) :
    ¬ Matches o.gregsMask m a' := by
  rcases bind_eq_error.mp h with h | ⟨s, -, h⟩
  · obtain ⟨i, -, t, hstep⟩ := foldlM_eq_error h
    have hlocal := gregStep_differs hstep
    exact fun hmatch => hlocal
      { hmatch with gpr := fun i hi => hmatch.gpr i (masked_localGregsMask a hi) }
  rcases bind_eq_error.mp h with h | ⟨s₁, -, h⟩
  · exact xerStep_differs h
  rcases bind_eq_error.mp h with h | ⟨s₂, -, h⟩
  · exact lnkStep_differs h
  rcases bind_eq_error.mp h with h | ⟨s₃, -, h⟩
  · exact ctrStep_differs h
  rcases bind_eq_error.mp h with h | ⟨s₄, -, h⟩
  · exact ccrStep_differs h
  rcases bind_eq_error.mp h with h | ⟨s₅, -, h⟩
  · exact mqStep_differs h
  rcases bind_eq_error.mp h with h | ⟨s₆, -, h⟩
  · exact fpscrStep_differs h
  rcases bind_eq_error.mp h with h | ⟨s₇, -, h⟩
  · obtain ⟨i, -, t, hstep⟩ := foldlM_eq_error h
    exact fprStep_differs hstep
  · obtain ⟨i, -, t, hstep⟩ := foldlM_eq_error h
    exact vrStep_differs hstep

end differ

end Risu.Ppc64
