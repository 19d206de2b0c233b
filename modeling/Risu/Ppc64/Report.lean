import Risu.Lib.Log
import Risu.Ppc64.Accepted

/-!
# The mismatch report (`reginfo_dump_mismatch`)

After a rejected comparison the apprentice prints, register by register, where `ri[MASTER]` and
`ri[APPRENTICE]` differ.  The report looks at raw values and knows no tolerance: it relies on
`reginfo_is_eq` having copied every tolerated difference into the apprentice's record.

* `reginfoDumpMismatch` — the lines that are printed;
* `reginfoDumpMismatch_eq_nil` — nothing is printed when the records match;
* `report_agrees` — the report and the comparison agree.
-/

namespace Risu.Ppc64

open Lib

variable {w nvr : ℕ}

/-! ### The lines -/

/-- `%0` with `PRIx`: a `reg_t` with all its digits. -/
def hexReg (v : BitVec w) : String := hex (w / 4) v.toNat

/-- The words of a vector register, separated by commas. -/
def hexVr (v : Fin 4 → BitVec 32) : String :=
  ", ".intercalate ((List.finRange 4).map fun j => hex 8 (v j).toNat)

/-- The two calls of `fprintf` for one register. -/
def mismatchLine (name m a : String) : String :=
  "Mismatch: " ++ name ++ " m: [" ++ m ++ "] != a: [" ++ a ++ "]\n"

def gprLine (o : Options) (m a : Reginfo w nvr) (i : Fin 32) : List String :=
  if masked o.gregsMask i then []
  else lineIf (m.gpr i != a.gpr i)
    (mismatchLine ("r" ++ toString i.val) (hexReg (m.gpr i)) (hexReg (a.gpr i)))

/-- One of the special registers. -/
def gregLine (name : String) (j : Fin 41) (m a : Reginfo w nvr) : List String :=
  lineIf (m.gregs j != a.gregs j) (mismatchLine name (hexReg (m.gregs j)) (hexReg (a.gregs j)))

/-- The link register, relative to the pc. -/
def lrLine (m a : Reginfo w nvr) : List String :=
  let mlr := m.gregs risuLnk - m.gregs risuNip
  let alr := a.gregs risuLnk - a.gregs risuNip
  lineIf (mlr != alr) (mismatchLine "lr (relative to pc)" (hexReg mlr) (hexReg alr))

def fprLine (m a : Reginfo w nvr) (i : Fin 32) : List String :=
  lineIf (m.fpregs i != a.fpregs i)
    (mismatchLine ("f" ++ toString i.val) (hex 16 (m.fpregs i).toNat) (hex 16 (a.fpregs i).toNat))

def fpscrLine (m a : Reginfo w nvr) : List String :=
  lineIf (m.fpscr != a.fpscr) (mismatchLine "fpscr" (hexReg m.fpscr) (hexReg a.fpscr))

def vrLine (m a : Reginfo w nvr) (i : Fin nvr) : List String :=
  lineIf ((List.finRange 4).any fun j => m.vrregs i j != a.vrregs i j)
    (mismatchLine ("vr" ++ toString i.val) (hexVr (m.vrregs i)) (hexVr (a.vrregs i)))

/-- `reginfo_dump_mismatch`, as the lines it prints. -/
def reginfoDumpMismatch (o : Options) (m a : Reginfo w nvr) : List String :=
  (List.finRange 32).flatMap (gprLine o m a) ++ gregLine "ctr" risuCtr m a ++ lrLine m a ++
    gregLine "xer" risuXer m a ++ gregLine "ccr" risuCcr m a ++ gregLine "mq" risuMq m a ++
    (List.finRange 32).flatMap (fprLine m a) ++ fpscrLine m a ++
    (List.finRange nvr).flatMap (vrLine m a)

/-! ### What the lines say -/

theorem gprLine_eq_nil (o : Options) (m a : Reginfo w nvr) (i : Fin 32) :
    gprLine o m a i = [] ↔ (masked o.gregsMask i = false → m.gpr i = a.gpr i) := by
  unfold gprLine
  split_ifs with h
  · simp [h]
  · simp [h]

theorem gregLine_eq_nil (name : String) (j : Fin 41) (m a : Reginfo w nvr) :
    gregLine name j m a = [] ↔ m.gregs j = a.gregs j := by
  simp [gregLine]

theorem vrLine_eq_nil (m a : Reginfo w nvr) (i : Fin nvr) :
    vrLine m a i = [] ↔ ∀ j, m.vrregs i j = a.vrregs i j := by
  simp [vrLine]

/-- **Nothing is printed when the records match**, and only then. -/
theorem reginfoDumpMismatch_eq_nil (o : Options) (m a : Reginfo w nvr) :
    reginfoDumpMismatch o m a = [] ↔ Matches o.gregsMask m a := by
  simp only [reginfoDumpMismatch, List.append_eq_nil_iff, List.flatMap_eq_nil_iff,
    List.mem_finRange, true_implies, gprLine_eq_nil, gregLine_eq_nil, vrLine_eq_nil]
  constructor
  · intro h
    obtain ⟨⟨⟨⟨⟨⟨⟨⟨hgpr, hctr⟩, hlnk⟩, hxer⟩, hccr⟩, hmq⟩, hfpr⟩, hfpscr⟩, hvr⟩ := h
    exact ⟨hgpr, hxer, by simpa [lrLine] using hlnk, hctr, hccr, hmq,
      by simpa [fpscrLine] using hfpscr, fun i => by simpa [fprLine] using hfpr i, hvr⟩
  · intro h
    exact ⟨⟨⟨⟨⟨⟨⟨⟨h.gpr, h.ctr⟩, by simp [lrLine, h.lnk]⟩, h.xer⟩, h.ccr⟩, h.mq⟩,
      fun i => by simp [fprLine, h.fpregs]⟩, by simp [fpscrLine, h.fpscr]⟩, h.vrregs⟩

/-- Outside an illegal instruction no general-purpose register is left out beyond `gregs_mask`. -/
theorem localGregsMask_of_ne_sigill (o : Options) {a : Reginfo w nvr}
    (h : getRisuop a ≠ RisuOp.sigill.code) : localGregsMask o a = o.gregsMask := by
  rw [localGregsMask, if_neg fun hsig => h hsig.1]

/-- **The comparison and the report agree.**  A rejected comparison is followed by a report of at
least one line; and unless the apprentice stands at an illegal instruction, the comparison is
accepted exactly when the report is empty. -/
theorem report_agrees (o : Options) (signalCount : ℕ) (m a a' : Reginfo w nvr) (res : Bool)
    (h : reginfoIsEq o signalCount m a = some (res, a')) :
    (res = false → reginfoDumpMismatch o m a' ≠ []) ∧
    (getRisuop a ≠ RisuOp.sigill.code → (res = true ↔ reginfoDumpMismatch o m a' = [])) := by
  have hrejected : res = false → reginfoDumpMismatch o m a' ≠ [] := by
    intro hres
    subst hres
    rw [ne_eq, reginfoDumpMismatch_eq_nil]
    exact scan_differs (reginfoIsEq_false.mp h)
  refine ⟨hrejected, fun hop => ⟨?_, ?_⟩⟩
  · intro hres
    subst hres
    have hmatch := scan_matches (reginfoIsEq_true.mp h)
    rw [localGregsMask_of_ne_sigill o hop] at hmatch
    exact (reginfoDumpMismatch_eq_nil o m a').mpr hmatch
  · intro hnil
    by_contra hres
    exact hrejected (by simpa using hres) hnil

/-- After an accepted `mflr` the report is empty, although a register was different. -/
theorem report_agrees_mflr :
    ∃ a, reginfoIsEq Options.default 1 mflrMaster mflrApprentice = some (true, a) ∧
      reginfoDumpMismatch Options.default mflrMaster a = [] := by
  obtain ⟨a, ha⟩ := mflr_accepted
  have hagrees := report_agrees Options.default 1 mflrMaster mflrApprentice a true ha
  exact ⟨a, ha, (hagrees.2 (by decide)).mp rfl⟩

end Risu.Ppc64
