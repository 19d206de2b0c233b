import Risu.Lib.Log
import Risu.Loongarch64.Reginfo

/-!
# The mismatch report of the loongarch64 port

Of the four words of each register the report prints as many as the context had.

* `reginfoDumpMismatch` — the lines that are printed;
* `Produced.vregs` — what is behind these words is zero;
* `explained_loongarch64` — there is a line of detail if and only if the records differ.
-/

namespace Risu.Loongarch64

open Lib

/-! ### The lines -/

/-- A field that differs, under its label. -/
def fieldLine {w : ℕ} (label : String) (digits : ℕ) (m a : BitVec w) : List String :=
  lineIf (m != a) (label ++ hex digits m.toNat ++ " vs " ++ hex digits a.toNat ++ "\n")

/-- Word `j` of register `i`. -/
def Reginfo.vreg (ri : Reginfo) (i : Fin 32) (j : Fin 4) : BitVec 64 := ri.vregs (lane i j)

def hex64 (v : BitVec 64) : String := hex 16 v.toNat

/-- `%-2d` -/
def index (i : Fin 32) : String := padRight 2 (toString i.val)

/-- The first words of a register, the last of them first. -/
def lanesOf (words : ℕ) : List (Fin 4) := ((List.finRange 4).take words).reverse

def differs (m a : Reginfo) (i : Fin 32) (words : ℕ) : Bool :=
  (lanesOf words).any fun j => m.vreg i j != a.vreg i j

def texts (vs : List (BitVec 64)) : String := ", ".intercalate (vs.map hex64)

def braces (vs : List (BitVec 64)) : String := "\x7b" ++ texts vs ++ "\x7d"

/-- The line of a register in a record with the given `vl`.  With two words the last one printed for the
apprentice is that of the master. -/
def vregLine (m a : Reginfo) (i : Fin 32) : List String :=
  if m.vl = 256#64 then
    lineIf (differs m a i 4)
      ("  vreg" ++ index i ++ "    : " ++ braces ((lanesOf 4).map (m.vreg i)) ++ " vs " ++
        braces ((lanesOf 4).map (a.vreg i)) ++ "\n")
  else if m.vl = 128#64 then
    lineIf (differs m a i 2)
      ("  vreg" ++ index i ++ "    : " ++ braces ((lanesOf 2).map (m.vreg i)) ++ " vs " ++
        braces ((lanesOf 2).map fun j => if j.val = 1 then a.vreg i j else m.vreg i j) ++ "\n")
  else if m.vl = 64#64 then
    lineIf (differs m a i 1)
      ("  vreg" ++ index i ++ "  : " ++ texts ((lanesOf 1).map (m.vreg i)) ++ " vs " ++
        texts ((lanesOf 1).map (a.vreg i)) ++ "\n")
  else []

def heading : String := "mismatch detail (master : apprentice):\n"

/-- `reginfo_dump_mismatch`, as the lines it prints. -/
def reginfoDumpMismatch (m a : Reginfo) : List String :=
  heading ::
    (fieldLine "  vl mismatch " 8 m.vl a.vl ++
      fieldLine "  faulting insn mismatch " 8 m.faultingInsn a.faultingInsn ++
      ((List.finRange 32).flatMap fun i =>
        fieldLine ("  r" ++ index i ++ "    : ") 16 (m.regs i) (a.regs i)) ++
      fieldLine "  pc     : " 16 m.pc a.pc ++
      fieldLine "  flags  : " 8 m.flags a.flags ++
      fieldLine "  fcc    : " 16 m.fcc a.fcc ++
      fieldLine "  fcsr   : " 8 m.fcsr a.fcsr ++
      (List.finRange 32).flatMap (vregLine m a))

/-! ### What a record can hold -/

/-- The records that `reginfo_init` makes. -/
def Produced (ri : Reginfo) : Prop := ∃ (start : BitVec 64) (u : Frame), reginfoInit start u = ri

/-- The words behind those of the context are zero. -/
structure Tidy (ri : Reginfo) (words : ℕ) : Prop where
  vl : ri.vl = BitVec.ofNat 64 (64 * words)
  few : words = 0 ∨ words = 1 ∨ words = 2 ∨ words = 4
  zero : ∀ (i : Fin 32) (j : Fin 4), words ≤ j → ri.vreg i j = 0

theorem not_mem_moves {k : Kind} {i : Fin 32} {j : Fin 4} (h : k.lanes ≤ j) :
    lane i j ∉ k.moves.map Prod.fst := by
  revert i j
  cases k <;> decide +kernel

theorem Produced.tidy {ri : Reginfo} (h : Produced ri) : ∃ words, Tidy ri words := by
  obtain ⟨start, u, rfl⟩ := h
  cases hk : u.kind with
  | none =>
    refine ⟨0, ?_, Or.inl rfl, ?_⟩
    · rw [reginfoInit, hk]
      rfl
    · intro i j _
      rw [Reginfo.vreg, reginfoInit, hk]
  | some k =>
    refine ⟨k.lanes, ?_, by cases k <;> simp [Kind.lanes], ?_⟩
    · rw [reginfoInit, hk]
      rfl
    · intro i j hj
      rw [Reginfo.vreg, vregs_reginfoInit hk, scatter_of_not_mem (not_mem_moves hj)]

/-! ### What the lines say -/

variable {m a : Reginfo} {words : ℕ}

theorem fieldLine_eq_nil {w : ℕ} {label : String} {digits : ℕ} {x y : BitVec w} :
    fieldLine label digits x y = [] ↔ x = y := by
  simp [fieldLine]

theorem mem_lanesOf : ∀ (words : Fin 5) (j : Fin 4), j ∈ lanesOf words ↔ (j : ℕ) < words := by
  decide

theorem differs_eq_false {i : Fin 32} (h : words ≤ 4) :
    differs m a i words = false ↔ ∀ j : Fin 4, (j : ℕ) < words → m.vreg i j = a.vreg i j := by
  have hmem (j : Fin 4) : j ∈ lanesOf words ↔ (j : ℕ) < words := mem_lanesOf ⟨words, by omega⟩ j
  rw [differs, List.any_eq_false]
  simp only [hmem, bne_iff_ne, ne_eq, not_not]

/-- The words that were recorded are printed. -/
theorem vregLine_eq_nil (h : Tidy m words) (i : Fin 32) :
    vregLine m a i = [] ↔ ∀ j : Fin 4, (j : ℕ) < words → m.vreg i j = a.vreg i j := by
  rw [vregLine, h.vl]
  rcases h.few with rfl | rfl | rfl | rfl
  · simp
  · exact (lineIf_eq_nil _ _).trans (differs_eq_false (by decide))
  · exact (lineIf_eq_nil _ _).trans (differs_eq_false (by decide))
  · exact (lineIf_eq_nil _ _).trans (differs_eq_false (by decide))

theorem vregs_ext (h : ∀ i j, m.vreg i j = a.vreg i j) : m.vregs = a.vregs := by
  funext x
  have hx : x = lane ⟨x / 4, by omega⟩ ⟨x % 4, by omega⟩ := by
    apply Fin.ext
    simp only [lane]
    omega
  rw [hx]
  exact h _ _

/-- What the lines say: everything is printed. -/
theorem reginfoDumpMismatch_spec (hm : Produced m) (ha : Produced a) :
    reginfoDumpMismatch m a = [heading] ↔ m = a := by
  obtain ⟨wm, hm⟩ := hm.tidy
  obtain ⟨wa, ha⟩ := ha.tidy
  rw [reginfoDumpMismatch, List.cons_inj_right]
  simp only [List.append_eq_nil_iff, List.flatMap_eq_nil_iff, List.mem_finRange, true_implies,
    fieldLine_eq_nil, vregLine_eq_nil hm]
  constructor
  · rintro ⟨⟨⟨⟨⟨⟨⟨hvl, hinsn⟩, hregs⟩, hpc⟩, hflags⟩, hfcc⟩, hfcsr⟩, hvregs⟩
    have hwords : wm = wa := by
      have hbits : BitVec.ofNat 64 (64 * wm) = BitVec.ofNat 64 (64 * wa) := by rw [← hm.vl, hvl, ha.vl]
      have hfewm := hm.few
      have hfewa := ha.few
      bv_omega
    subst hwords
    have hall : m.vregs = a.vregs := by
      refine vregs_ext fun i j => ?_
      rcases Nat.lt_or_ge j.val wm with hj | hj
      · exact hvregs i j hj
      · rw [hm.zero i j hj, ha.zero i j hj]
    have hregs' : m.regs = a.regs := funext hregs
    cases m
    cases a
    simp_all
  · rintro rfl
    exact ⟨⟨⟨⟨⟨⟨⟨rfl, rfl⟩, fun _ => rfl⟩, rfl⟩, rfl⟩, rfl⟩, rfl⟩, fun _ _ _ => rfl⟩

/-- **A mismatch has a line of detail, and what matches has none.** -/
theorem explained_loongarch64 (hm : Produced m) (ha : Produced a) :
    reginfoIsEq m a = false ↔ ∃ line lines, reginfoDumpMismatch m a = heading :: line :: lines := by
  have hhead : (reginfoDumpMismatch m a).head? = some heading := rfl
  rw [exists_line_iff hhead, Ne, reginfoDumpMismatch_spec hm ha, reginfoIsEq, decide_eq_false_iff_not]

end Risu.Loongarch64
