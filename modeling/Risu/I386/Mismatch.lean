import Risu.Lib.Log
import Risu.I386.Reginfo

/-!
# The mismatch report of the i386 port

`reginfo_is_eq` compares the whole record, and `reginfo_dump_mismatch` prints it field by field.

* `reginfoDumpMismatch` — the lines that are printed;
* `Blank` — the bytes of a record that no component fills are zero;
* `OnlyHidden` — two records differ only where the report does not look;
* `explained_iff_i386` — a mismatch is explained if and only if the records do not differ so.
-/

namespace Risu.I386

open Lib

variable {b : Build}

/-! ### The lines -/

/-- The first letter of the names of the general registers. -/
def Build.letter : Build → String
  | i386 => "e"
  | x86_64 => "r"

def Greg.name (b : Build) : Greg → String
  | ax => b.letter ++ "ax"
  | bx => b.letter ++ "bx"
  | cx => b.letter ++ "cx"
  | dx => b.letter ++ "dx"
  | di => b.letter ++ "di"
  | si => b.letter ++ "si"
  | bp => b.letter ++ "bp"
  | sp => b.letter ++ "sp"
  | ip => b.letter ++ "ip"
  | efl => "eflags"
  | r8 => "r8"
  | r9 => "r9"
  | r10 => "r10"
  | r11 => "r11"
  | r12 => "r12"
  | r13 => "r13"
  | r14 => "r14"
  | r15 => "r15"

/-- `regname` -/
def Build.regname (b : Build) (i : ℕ) : Option String := (b.greg i).map (Greg.name b)

/-- `get_nvecregs` -/
def getNvecregs (b : Build) (features : BitVec 64) : ℕ :=
  match b with
  | .x86_64 => if has features .hi16Zmm then 32 else 16
  | .i386 => 8

/-- `get_nvecquads` -/
def getNvecquads (features : BitVec 64) : ℕ :=
  if has features .zmmHi256 then 8 else if has features .avx then 4 else 2

/-- `get_vecletter` -/
def getVecletter (features : BitVec 64) : String :=
  if has features .zmmHi256 || has features .hi16Zmm then "z" else if has features .avx then "y" else "x"

/-- `PRIxREG` -/
def hexReg (v : BitVec b.width) : String := hex (b.width / 4) v.toNat

/-- `q[j]` of a vector register. -/
def quad (v : Fin 64 → Byte) (j : ℕ) : ℕ := valueOf .little (((List.ofFn v).drop (8 * j)).take 8)

/-- The quads of a vector register, the high ones first. -/
def hexVreg (w : ℕ) (v : Fin 64 → Byte) : String :=
  String.join ((List.range w).reverse.map fun j => hex 16 (quad v j) ++ if j = 0 then "\n" else " ")

/-- A register that differs; `none` if it has no name, which is an assertion. -/
def gregLine (m a : Reginfo b) (i : Fin b.ngreg) : Option (List String) :=
  if m.gregs i = a.gregs i then some []
  else (b.regname i).map fun name =>
    ["  " ++ padRight 6 name ++ ": " ++ hexReg (m.gregs i) ++ " v " ++ hexReg (a.gregs i) ++ "\n"]

/-- The lines of a vector register whose first `w` quads differ. -/
def vregLines (m a : Reginfo b) (w : ℕ) (letter : String) (i : Fin b.vregs) : List String :=
  if ∀ t : Fin 64, t < w * 8 → m.vregs i t = a.vregs i t then []
  else
    ["  " ++ letter ++ "mm" ++ padRight 3 (toString i.val) ++ ": " ++ hexVreg w (m.vregs i),
      "       v: " ++ hexVreg w (a.vregs i)]

def kregLine (m a : Reginfo b) (i : Fin 8) : List String :=
  let value (ri : Reginfo b) := hex 16 (valueOf .little (List.ofFn (ri.kregs i)))
  lineIf (decide (m.kregs i ≠ a.kregs i))
    ("  k" ++ padRight 5 (toString i.val) ++ ": " ++ value m ++ " v " ++ value a ++ "\n")

def heading : String := "Mismatch (master v apprentice):\n"

/-- The lines after those of the general registers. -/
def otherLines (m a : Reginfo b) : List String :=
  let features := m.xfeatures
  lineIf (m.mxcsr != a.mxcsr)
      ("  mxcsr : " ++ hex 0 m.mxcsr.toNat ++ " v " ++ hex 0 a.mxcsr.toNat ++ "\n") ++
    lineIf (m.xfeatures != a.xfeatures)
      ("  xfeat : " ++ hex 0 m.xfeatures.toNat ++ " v " ++ hex 0 a.xfeatures.toNat ++ "\n") ++
    ((List.finRange b.vregs).filter fun i => decide (i.val < getNvecregs b features)).flatMap
      (vregLines m a (getNvecquads features) (getVecletter features)) ++
    (List.finRange 8).flatMap (kregLine m a)

/-- `reginfo_dump_mismatch`, as the lines it prints; `none` if an assertion fails. -/
def reginfoDumpMismatch (m a : Reginfo b) : Option (List String) :=
  ((List.finRange b.ngreg).mapM (gregLine m a)).map fun gregs =>
    heading :: (gregs.flatten ++ otherLines m a)

/-! ### What a record can hold -/

/-- The records that `reginfo_init` makes. -/
def Produced (ri : Reginfo b) : Prop := ∃ (e : Env b) (u : Context b), reginfoInit e u = some ri

/-- The component that fills a byte of a vector register, besides SSE. -/
def owner (b : Build) (i t : ℕ) : Option Component :=
  if b.nvecregs ≤ i then some .hi16Zmm
  else if t < 16 then none
  else if t < 32 then some .avx
  else some .zmmHi256

/-- What nothing fills is zero. -/
structure Blank (ri : Reginfo b) : Prop where
  gregs : ∀ i : Fin b.ngreg, b.greg i = none → ri.gregs i = 0
  vregs : ∀ (i : Fin b.vregs) (t : Fin 64) (c : Component), owner b i t = some c →
    has ri.xfeatures c = false → ri.vregs i t = 0

/-- A copy into the bytes of a requested component leaves the bytes of the others. -/
theorem copyVregs_blank {fp : Fpstate} {f : BitVec 64} {c : Component} {buf first count pos len : ℕ}
    {vregs : Fin b.vregs → Fin 64 → Byte} (hc : has f c = true)
    (hown : ∀ i t : ℕ, first ≤ i ∧ i < first + count ∧ pos ≤ t ∧ t < pos + len → owner b i t = some c)
    (h : ∀ (i : Fin b.vregs) (t : Fin 64) (c : Component), owner b i t = some c →
      has f c = false → vregs i t = 0)
    (i : Fin b.vregs) (t : Fin 64) (c' : Component) (ho : owner b i t = some c')
    (hc' : has f c' = false) : copyVregs fp buf first count pos len vregs i t = 0 := by
  rw [copyVregs]
  split_ifs with hin
  · have hcc : c = c' := Option.some.inj ((hown i t hin).symm.trans ho)
    rw [hcc, hc'] at hc
    exact absurd hc (by decide)
  · exact h i t c' ho hc'

theorem has_of_has_and {f g : BitVec 64} {c : Component} (h : has (f &&& g) c = true) : has f c = true := by
  rw [has, bne_iff_ne] at h ⊢
  intro hf
  apply h
  rw [BitVec.and_assoc, BitVec.and_comm g, ← BitVec.and_assoc, hf]
  exact BitVec.zero_and

theorem Blank.addComponent {e : Env b} {fp : Fpstate} {c : Component} {ri ri' : Reginfo b}
    (hri : Blank ri) (hx : ri.xfeatures = e.xfeatures) (h : ri.addComponent e fp c = some ri') :
    Blank ri' ∧ ri'.xfeatures = e.xfeatures := by
  rw [Reginfo.addComponent] at h
  split at h
  · next hfeat =>
    rw [Option.map_eq_some_iff] at h
    obtain ⟨buf, -, rfl⟩ := h
    have hc : has ri.xfeatures c = true := by
      rw [hx]
      exact has_of_has_and hfeat
    have hn : b.nvecregs ≤ 16 := by cases b <;> decide
    cases c with
    | avx =>
      refine ⟨⟨hri.gregs, copyVregs_blank hc (fun i t hin => ?_) hri.vregs⟩, hx⟩
      rw [owner, if_neg (by omega), if_neg (by omega), if_pos (by omega)]
    | opmask => exact ⟨⟨hri.gregs, hri.vregs⟩, hx⟩
    | zmmHi256 =>
      refine ⟨⟨hri.gregs, copyVregs_blank hc (fun i t hin => ?_) hri.vregs⟩, hx⟩
      rw [owner, if_neg (by omega), if_neg (by omega), if_neg (by omega)]
    | hi16Zmm =>
      refine ⟨⟨hri.gregs, copyVregs_blank hc (fun i t hin => ?_) hri.vregs⟩, hx⟩
      rw [owner, if_pos (by omega)]
  · cases h
    exact ⟨hri, hx⟩

theorem Blank.addComponents {e : Env b} {fp : Fpstate} {cs : List Component} {ri ri' : Reginfo b}
    (hri : Blank ri) (hx : ri.xfeatures = e.xfeatures) (h : ri.addComponents e fp cs = some ri') :
    Blank ri' := by
  induction cs generalizing ri with
  | nil =>
    cases h
    exact hri
  | cons c cs ih =>
    rw [Reginfo.addComponents, List.foldlM_cons, Option.bind_eq_bind, Option.bind_eq_some_iff] at h
    obtain ⟨ri₁, h₁, h⟩ := h
    obtain ⟨hri₁, hx₁⟩ := hri.addComponent hx h₁
    exact ih hri₁ hx₁ h

/-- **What `reginfo_init` does not fill is zero.** -/
theorem Produced.blank {ri : Reginfo b} (h : Produced ri) : Blank ri := by
  obtain ⟨e, u, h⟩ := h
  have hgregs : ∀ i : Fin b.ngreg, b.greg i = none → recordGreg e i (u.gregs i) = 0 := by
    intro i hi
    rw [recordGreg, hi]
  rw [reginfoInit] at h
  split at h
  · cases h
    exact ⟨hgregs, fun _ _ _ _ _ => rfl⟩
  · next fp _ =>
    have hsse : ∀ (i : Fin b.vregs) (t : Fin 64) (c : Component), owner b i t = some c →
        has e.xfeatures c = false →
        copyVregs fp b.xmmOffset 0 b.nvecregs 0 16 (fun (_ : Fin b.vregs) _ => 0) i t = 0 := by
      intro i t c ho _
      rw [copyVregs, if_neg]
      intro hin
      rw [owner, if_neg (by omega), if_pos (by omega)] at ho
      cases ho
    split at h
    · dsimp only at h
      split at h
      · exact Blank.addComponents ⟨hgregs, hsse⟩ rfl h
      · cases h
        exact ⟨hgregs, hsse⟩
    · cases h
      exact ⟨hgregs, fun _ _ _ _ _ => rfl⟩

/-! ### What the lines say -/

/-- The mismatch is followed by a line of detail. -/
def Explained (m a : Reginfo b) : Prop :=
  reginfoIsEq m a = false → ∃ line lines, reginfoDumpMismatch m a = some (heading :: line :: lines)

/-- The records differ only in the faulting instruction and, where the registers 16 to 31 are requested
without the high halves of the others, in bytes of these registers that are not printed. -/
structure OnlyHidden (m a : Reginfo b) : Prop where
  ne : m ≠ a
  mxcsr : m.mxcsr = a.mxcsr
  xfeatures : m.xfeatures = a.xfeatures
  gregs : m.gregs = a.gregs
  kregs : m.kregs = a.kregs
  vregs : ∀ (i : Fin b.vregs) (t : Fin 64), m.vregs i t ≠ a.vregs i t →
    b.nvecregs ≤ i ∧ has m.xfeatures .zmmHi256 = false ∧ 16 ≤ t.val ∧
      (has m.xfeatures .avx = true → 32 ≤ t.val)

/-- The bytes that are printed. -/
def Printed (b : Build) (features : BitVec 64) (i t : ℕ) : Prop :=
  i < getNvecregs b features ∧ t < getNvecquads features * 8

theorem otherLines_eq_nil (m a : Reginfo b) :
    otherLines m a = [] ↔ m.mxcsr = a.mxcsr ∧ m.xfeatures = a.xfeatures ∧
      (∀ (i : Fin b.vregs) (t : Fin 64), Printed b m.xfeatures i t → m.vregs i t = a.vregs i t) ∧
      m.kregs = a.kregs := by
  have hvregs (w : ℕ) (letter : String) (i : Fin b.vregs) :
      vregLines m a w letter i = [] ↔ ∀ t : Fin 64, t < w * 8 → m.vregs i t = a.vregs i t := by
    rw [vregLines]
    split_ifs with h
    · exact ⟨fun _ => h, fun _ => rfl⟩
    · exact ⟨fun hnil => False.elim hnil, fun hall => absurd hall h⟩
  have hkregs (i : Fin 8) : kregLine m a i = [] ↔ m.kregs i = a.kregs i := by simp [kregLine]
  simp only [otherLines, List.append_eq_nil_iff, List.flatMap_eq_nil_iff, lineIf_eq_nil, hvregs, hkregs,
    bne_eq_false_iff_eq, List.mem_filter, List.mem_finRange, true_and, true_implies, decide_eq_true_eq,
    Printed, and_imp, funext_iff, and_assoc]
  constructor
  · rintro ⟨hmxcsr, hx, hv, hk⟩
    exact ⟨hmxcsr, hx, fun i t hi ht => hv i hi t ht, hk⟩
  · rintro ⟨hmxcsr, hx, hv, hk⟩
    exact ⟨hmxcsr, hx, fun i hi t ht => hv i t hi ht, hk⟩

/-- The general registers that differ have names. -/
theorem gregLine_isSome {m a : Reginfo b} (hm : Blank m) (ha : Blank a) (i : Fin b.ngreg) :
    ∃ lines, gregLine m a i = some lines ∧ (lines = [] ↔ m.gregs i = a.gregs i) := by
  rw [gregLine]
  split_ifs with h
  · exact ⟨[], rfl, by simp [h]⟩
  · rw [Build.regname]
    cases hi : b.greg i with
    | none => exact absurd ((hm.gregs i hi).trans (ha.gregs i hi).symm) h
    | some g => exact ⟨_, rfl, by simp [h]⟩

theorem reginfoDumpMismatch_spec {m a : Reginfo b} (hm : Blank m) (ha : Blank a) :
    ∃ lines, reginfoDumpMismatch m a = some (heading :: lines) ∧
      (lines = [] ↔ m.gregs = a.gregs ∧ otherLines m a = []) := by
  choose g hg hnil using gregLine_isSome hm ha
  have hmap : (List.finRange b.ngreg).mapM (gregLine m a) = some ((List.finRange b.ngreg).map g) := by
    rw [show gregLine m a = fun i => pure (g i) from funext hg, List.mapM_pure]
    rfl
  refine ⟨_, by rw [reginfoDumpMismatch, hmap]; rfl, ?_⟩
  simp [List.append_eq_nil_iff, hnil, funext_iff]

/-- The registers that something fills are printed. -/
theorem lt_getNvecregs {f : BitVec 64} (i : Fin b.vregs)
    (h : b.nvecregs ≤ i → has f .hi16Zmm = true) : i < getNvecregs b f := by
  have hi := i.isLt
  cases b with
  | i386 => exact hi
  | x86_64 =>
    rw [getNvecregs]
    split_ifs with hf
    · exact hi
    · by_contra hge
      exact hf (h (not_lt.mp hge))

/-- The differences that are not printed are those of the registers 16 to 31. -/
theorem hidden_of_not_printed {m a : Reginfo b} (hm : Blank m) (ha : Blank a)
    (hx : m.xfeatures = a.xfeatures) {i : Fin b.vregs} {t : Fin 64} (hne : m.vregs i t ≠ a.vregs i t)
    (hp : ¬Printed b m.xfeatures i t) :
    b.nvecregs ≤ i ∧ has m.xfeatures .zmmHi256 = false ∧ 16 ≤ t.val ∧
      (has m.xfeatures .avx = true → 32 ≤ t.val) := by
  have howner (c : Component) (ho : owner b i t = some c) : has m.xfeatures c = true := by
    by_contra hc
    rw [Bool.not_eq_true] at hc
    exact hne ((hm.vregs i t c ho hc).trans (ha.vregs i t c ho (hx ▸ hc)).symm)
  have ht := t.isLt
  have hi : i < getNvecregs b m.xfeatures := lt_getNvecregs i fun hge => howner _ (if_pos hge)
  have hquads : getNvecquads m.xfeatures * 8 ≤ t := not_lt.mp fun hlt => hp ⟨hi, hlt⟩
  rw [getNvecquads] at hquads
  rcases Nat.lt_or_ge i b.nvecregs with hlow | hhigh
  · -- the bytes of the low registers are printed as far as their components are requested
    exfalso
    rw [owner, if_neg (not_le.mpr hlow)] at howner
    by_cases h16 : t.val < 16
    · split_ifs at hquads <;> omega
    rw [if_neg h16] at howner
    by_cases h32 : t.val < 32
    · have havx : has m.xfeatures .avx = true := howner .avx (if_pos h32)
      rw [if_pos havx] at hquads
      split_ifs at hquads <;> omega
    · have hzmm : has m.xfeatures .zmmHi256 = true := howner .zmmHi256 (if_neg h32)
      rw [if_pos hzmm] at hquads
      omega
  · refine ⟨hhigh, ?_⟩
    split_ifs at hquads with h₁ h₂
    · omega
    · exact ⟨by simpa using h₁, by omega, fun _ => by omega⟩
    · exact ⟨by simpa using h₁, by omega, fun havx => absurd havx h₂⟩

/-- **The report of a mismatch has a line of detail if and only if the records differ in what it
prints.** -/
theorem explained_iff_i386 {m a : Reginfo b} (hm : Produced m) (ha : Produced a) :
    Explained m a ↔ ¬OnlyHidden m a := by
  obtain ⟨lines, hdump, hnil⟩ := reginfoDumpMismatch_spec hm.blank ha.blank
  have hlines : (∃ line lines, reginfoDumpMismatch m a = some (heading :: line :: lines)) ↔
      lines ≠ [] := by
    rw [hdump]
    cases lines <;> simp
  rw [Explained, hlines, reginfoIsEq, decide_eq_false_iff_not]
  constructor
  · intro h hid
    apply h hid.ne
    rw [hnil, otherLines_eq_nil]
    refine ⟨hid.gregs, hid.mxcsr, hid.xfeatures, fun i t hp => ?_, hid.kregs⟩
    by_contra hne
    obtain ⟨-, hzmm, hsse, havx⟩ := hid.vregs i t hne
    have hquads := hp.2
    rw [getNvecquads, if_neg (by simp [hzmm])] at hquads
    split_ifs at hquads with h
    · have := havx h
      omega
    · omega
  · intro hid hne hempty
    rw [hnil, otherLines_eq_nil] at hempty
    obtain ⟨hgregs, hmxcsr, hx, hv, hk⟩ := hempty
    exact hid ⟨hne, hmxcsr, hx, hgregs, hk, fun i t hdiff =>
      hidden_of_not_printed hm.blank ha.blank hx hdiff fun hp => hdiff (hv i t hp)⟩

end Risu.I386
