import Mathlib.Data.List.FinRange
import Risu.Lib.Log
import Risu.Arm.Reginfo

/-!
# The mismatch report of the 32-bit Arm port

* `reginfoDumpMismatch` — the lines that are printed;
* `explained_arm` — there is a line of detail if and only if the records differ.
-/

namespace Risu.Arm

open Lib

/-- The line of the faulting instruction: its size, or else its bytes. -/
def insnLine (m a : Reginfo) : List String :=
  let digits := if m.faultingInsnSize = 2 then 4 else 8
  if m.faultingInsnSize ≠ a.faultingInsnSize then
    ["  faulting insn size mismatch " ++ toString m.faultingInsnSize.toInt ++ " vs " ++
      toString a.faultingInsnSize.toInt ++ "\n"]
  else
    lineIf (m.faultingInsn != a.faultingInsn)
      ("  faulting insn mismatch " ++ hex digits m.faultingInsn.toNat ++ " vs " ++
        hex digits a.faultingInsn.toNat ++ "\n")

/-- A register that differs, under its name. -/
def regLine {w : ℕ} (name : String) (digits : ℕ) (m a : BitVec w) : List String :=
  lineIf (m != a) ("  " ++ name ++ ": " ++ hex digits m.toNat ++ " vs " ++ hex digits a.toNat ++ "\n")

def heading : String := "mismatch detail (master : apprentice):\n"

/-- `reginfo_dump_mismatch`, as the lines it prints. -/
def reginfoDumpMismatch (m a : Reginfo) : List String :=
  heading ::
    (insnLine m a ++
      ((List.finRange 16).flatMap fun i => regLine ("r" ++ toString i.val) 8 (m.gpreg i) (a.gpreg i)) ++
      regLine "cpsr" 8 m.cpsr a.cpsr ++
      ((List.finRange 32).flatMap fun i => regLine ("d" ++ toString i.val) 16 (m.fpregs i) (a.fpregs i)) ++
      regLine "fpscr" 8 m.fpscr a.fpscr)

variable {m a : Reginfo}

theorem regLine_eq_nil {w : ℕ} {name : String} {digits : ℕ} {x y : BitVec w} :
    regLine name digits x y = [] ↔ x = y := by
  simp [regLine]

theorem insnLine_eq_nil :
    insnLine m a = [] ↔ m.faultingInsnSize = a.faultingInsnSize ∧ m.faultingInsn = a.faultingInsn := by
  simp only [insnLine]
  split_ifs with hsize <;> simp_all

/-- Everything is printed. -/
theorem reginfoDumpMismatch_spec : reginfoDumpMismatch m a = [heading] ↔ m = a := by
  rw [reginfoDumpMismatch, List.cons_inj_right]
  simp only [List.append_eq_nil_iff, List.flatMap_eq_nil_iff, List.mem_finRange, true_implies,
    regLine_eq_nil, insnLine_eq_nil]
  constructor
  · rintro ⟨⟨⟨⟨⟨hsize, hinsn⟩, hgpreg⟩, hcpsr⟩, hfpregs⟩, hfpscr⟩
    have hgpreg' : m.gpreg = a.gpreg := funext hgpreg
    have hfpregs' : m.fpregs = a.fpregs := funext hfpregs
    cases m
    cases a
    simp_all
  · rintro rfl
    exact ⟨⟨⟨⟨⟨rfl, rfl⟩, fun _ => rfl⟩, rfl⟩, fun _ => rfl⟩, rfl⟩

/-- **A mismatch has a line of detail, and what matches has none.** -/
theorem explained_arm :
    reginfoIsEq m a = false ↔ ∃ line lines, reginfoDumpMismatch m a = heading :: line :: lines := by
  have hhead : (reginfoDumpMismatch m a).head? = some heading := rfl
  rw [exists_line_iff hhead, Ne, reginfoDumpMismatch_spec, reginfoIsEq, decide_eq_false_iff_not]

end Risu.Arm
