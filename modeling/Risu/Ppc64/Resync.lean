import Risu.Ppc64.Accepted
import Risu.Ppc64.Port
import Risu.Atomic

/-!
# Resynchronisation after an accepted comparison

An accepted comparison may have tolerated differences.  The apprentice then copies the master's
registers into its own context (`reginfo_update`), so that the two images go on from the same
values: `resynchronised`.

* `Resynced b m c c'` — the context `c'` holds the values of the record `m`, apart from what `c` keeps
  for itself: the registers outside `gregs_mask`, the pc and MSR;
* `recvAndCompare_resynced` — the context that `recv_and_compare_register_info` hands back after a
  `COMPARE` outside setup is resynchronised with the record it received.
-/

namespace Risu.Ppc64

open Lib Lib.Process

/-- What `reginfo_init` reads from the context `c'` is what the record `m` says, apart from what the
context `c` keeps for itself. -/
structure Resynced (b : Build) (m : Reginfo b.width 0) (c c' : Ucontext b.width) : Prop where
  gpr : ∀ i : Fin 32, masked b.options.gregsMask i = false → (b.reginfoInit c').gpr i = m.gpr i
  xer : (b.reginfoInit c').gregs risuXer = m.gregs risuXer
  ccr : (b.reginfoInit c').gregs risuCcr = m.gregs risuCcr
  mq : (b.reginfoInit c').gregs risuMq = m.gregs risuMq
  fpscr : (b.reginfoInit c').fpscr = m.fpscr
  fpregs : ∀ i, (b.reginfoInit c').fpregs i = m.fpregs i
  ctr : (b.reginfoInit c').gregs risuCtr = m.gregs risuCtr
  lnk : (b.reginfoInit c').gregs risuLnk - (b.reginfoInit c').gregs risuNip =
    m.gregs risuLnk - m.gregs risuNip
  outside : ∀ i : Fin 32, masked b.options.gregsMask i = true →
    (b.reginfoInit c').gpr i = c.gregs (gprIndex i)
  nip : (b.reginfoInit c').gregs risuNip = c.gregs risuNip
  msr : (b.reginfoInit c').gregs risuMsr = c.gregs risuMsr

variable {b : Build} {m : Reginfo b.width 0} {c c' : Ucontext b.width}

/-- A general-purpose register is updated when `gregs_mask` selects it. -/
theorem updates_gprIndex (b : Build) (i : Fin 32) :
    b.updates (gprIndex i) = !masked b.options.gregsMask i := by
  have hne : ∀ {j : Fin 41}, 32 ≤ j.val → (gprIndex i == j) = false := fun hj =>
    beq_false_of_ne (ne_gprIndex hj i).symm
  have hlt : (gprIndex i).val < 32 := i.isLt
  simp only [Build.updates, hne (show 32 ≤ risuCcr.val by decide),
    hne (show 32 ≤ risuXer.val by decide), hne (show 32 ≤ risuMq.val by decide), hlt]
  rfl

/-- The registers of a comparison that was accepted are in sync after the update. -/
theorem resynced_update {signalCount : ℕ} {a' : Reginfo b.width 0}
    (h : reginfoIsEq b.options signalCount m (b.reginfoInit c) = some (true, a')) :
    Resynced b m c (b.reginfoUpdate m c) := by
  have haccepted := scan_accepted (reginfoIsEq_true.mp h)
  have hgpr : ∀ i : Fin 32, (b.reginfoInit (b.reginfoUpdate m c)).gpr i =
      if masked b.options.gregsMask i then c.gregs (gprIndex i) else m.gpr i := by
    intro i
    show (if b.updates (gprIndex i) then m.gregs (gprIndex i) else c.gregs (gprIndex i)) = _
    rw [updates_gprIndex]
    cases masked b.options.gregsMask i <;> rfl
  refine ⟨?_, rfl, rfl, rfl, rfl, fun _ => rfl, ?_, ?_, ?_, rfl, rfl⟩
  · intro i hi
    rw [hgpr, hi]
    rfl
  · exact haccepted.ctr.symm
  · exact haccepted.lnk.symm
  · intro i hi
    rw [hgpr, hi]
    rfl

/-- Between a context in sync and its record nothing is left to tolerate. -/
theorem Resynced.matches (h : Resynced b m c c') :
    Matches b.options.gregsMask m (b.reginfoInit c') where
  gpr i hi := (h.gpr i hi).symm
  xer := h.xer.symm
  lnk := h.lnk.symm
  ctr := h.ctr.symm
  ccr := h.ccr.symm
  mq := h.mq.symm
  fpscr := h.fpscr.symm
  fpregs i := (h.fpregs i).symm
  vrregs i := i.elim0

/-- **Resynchronisation.**  After an accepted comparison `reginfo_update` leaves a context in sync
with the master's record.  No tolerated difference survives: the record matches what `reginfo_init`
now reads, under every choice of the other options, and is accepted without any tolerance. -/
theorem resynchronised (b : Build) (signalCount : ℕ) (m : Reginfo b.width 0) (c : Ucontext b.width)
    (a' : Reginfo b.width 0)
    (h : reginfoIsEq b.options signalCount m (b.reginfoInit c) = some (true, a')) :
    Resynced b m c (b.reginfoUpdate m c) ∧
    ∀ (o : Options) (n : ℕ), o.gregsMask = b.options.gregsMask →
      reginfoIsEq o n m (b.reginfoInit (b.reginfoUpdate m c)) =
        some (true, b.reginfoInit (b.reginfoUpdate m c)) := by
  have hsync := resynced_update h
  refine ⟨hsync, fun o n hmask => ?_⟩
  apply reginfoIsEq_of_matches
  rw [hmask]
  exact hsync.matches

/-- The image of `native32` right after `mflr r3`, at a request for a comparison. -/
def mflrContext : Ucontext native32.width where
  gregs := fun j => if j = risuNip ∨ j = risuLnk ∨ j.val = 3 then 0x1004 else 0
  fpregs := fun _ => 0
  fpscr := 0
  word := fun addr => if addr = 0x1004 then 0x5af0 else 0x7c6802a6

/-- The value of the link register in `r3` is tolerated, and replaced by the master's. -/
theorem resynchronised_mflr :
    (native32.reginfoInit mflrContext).gpr 3 = 0x1004 ∧
      (native32.reginfoInit (native32.reginfoUpdate mflrMaster mflrContext)).gpr 3 = 0 := by
  have h : (reginfoIsEq native32.options 1 mflrMaster (native32.reginfoInit mflrContext)).map
      Prod.fst = some true := rfl
  obtain ⟨⟨res, a⟩, hres, rfl⟩ := Option.map_eq_some_iff.mp h
  have hsync := resynchronised native32 1 mflrMaster mflrContext a hres
  exact ⟨rfl, hsync.1.gpr 3 (by decide)⟩

/-! ### In an exchange -/

/-- An accepted `COMPARE` outside setup went through `reginfo_is_eq` and `reginfo_update`. -/
theorem compareRecord_compare {A : Arch} {s : State A} {e : Event A}
    {v : RisuResult × A.Ucontext × State A} (h : compareRecord .compare s e = .ok v)
    (hok : v.1 = .ok) (hsetup : s.isSetup = false) :
    ∃ a, A.reginfoIsEq s.signalCount s.riMaster s.riApprentice = some (true, a) ∧
      v.2.1 = A.reginfoUpdate s.riMaster e.uc ∧ v.2.2.riMaster = s.riMaster := by
  simp only [compareRecord, hsetup] at h
  split_ifs at h with hop hfalse
  · cases h
    cases hok
  · exact hfalse.elim
  · split at h
    · cases h
    · cases h
      cases hok
    · rename_i a heq
      cases h
      refine ⟨a, heq, ?_⟩
      unfold registerVerdict at hok ⊢
      split_ifs at hok ⊢
      · exact ⟨rfl, rfl⟩
      · contradiction

/-- The context handed back after a `COMPARE` outside setup is in sync with the record received, in
both modes and whatever bytes came in. -/
theorem recvAndCompare_resynced (trace : Bool) (s : State (port b)) (e : Event (port b))
    (hop : RisuOp.ofCode e.code = some .compare) (hsetup : s.isSetup = false) :
    (recvAndCompareRegisterInfo trace s e).Everywhere (fun _ => True)
      (fun r => r.1 = .ok → Resynced b r.2.2.riMaster e.uc r.2.1) := by
  have hfinish : ∀ v : RisuResult × (port b).Ucontext × State (port b),
      (v.1 = .ok → Resynced b v.2.2.riMaster e.uc v.2.1) →
      (finishCompare trace v).Everywhere (fun _ => True)
        (fun r => r.1 = .ok → Resynced b r.2.2.riMaster e.uc r.2.1) := fun v hv =>
    (everywhere_respond trace trivial _).bind fun _ _ => hv
  have hcode : e.code ≠ RisuOp.sigill.code := by
    intro hsig
    rw [hsig, RisuOp.ofCode_code] at hop
    cases hop
  unfold recvAndCompareRegisterInfo
  simp only [State.countSigill, if_neg hcode]
  rw [if_neg fun hskip => hcode hskip.1]
  refine ((recvRegisterInfo_fills trace _).mono (fun _ _ => trivial) fun _ => id).bind ?_
  intro r hr
  unfold judgeRecord
  split_ifs with hres
  · exact hfinish _ fun hok => absurd hok hres
  · cases hv : verdict e r.2 with
    | error d => trivial
    | ok v =>
      refine hfinish v fun hok => ?_
      obtain ⟨op, w, hop', hc, rfl⟩ := verdict_inv hv
      obtain rfl : op = .compare := by simpa [hop] using hop'.symm
      have hw : w.1 = .ok := by
        by_contra hne
        rw [noteCompleted, if_neg hne] at hok
        exact hne hok
      obtain ⟨header, ri, block, hstate⟩ := hr
      obtain ⟨a, heq, huc, hri⟩ := compareRecord_compare hc hw (by rw [hstate]; exact hsetup)
      have hsync : Resynced b r.2.riMaster e.uc ((port b).reginfoUpdate r.2.riMaster e.uc) := by
        rw [hstate] at heq ⊢
        exact resynced_update heq
      rw [noteCompleted, if_pos hw]
      show Resynced b w.2.2.riMaster e.uc w.2.1
      rw [huc, hri]
      exact hsync

end Risu.Ppc64
