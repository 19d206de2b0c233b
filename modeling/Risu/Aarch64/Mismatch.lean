import Mathlib.Tactic.Linarith
import Risu.Lib.Log
import Risu.Aarch64.Reginfo

/-!
# The mismatch report of the aarch64 port

* `reginfoDumpMismatch` — the lines that are printed;
* `Tidy` — the bytes of a record behind its registers are zero;
* `OnlyFaultAddress` — two records differ only in the fault address;
* `explained_iff_aarch64` — a mismatch is explained if and only if the records do not differ so.
-/

namespace Risu.Aarch64

open Lib

/-! ### The lines -/

/-- The bytes of `extra` from an offset on. -/
def Reginfo.bytes (ri : Reginfo) (off len : ℕ) : List Byte :=
  (List.range len).map fun i => ri.extra (off + i)

/-- A 64-bit word of `extra`. -/
def Reginfo.word64 (ri : Reginfo) (off : ℕ) : ℕ := valueOf .little (ri.bytes off 8)

def Reginfo.word16 (ri : Reginfo) (off : ℕ) : ℕ := valueOf .little (ri.bytes off 2)

/-- Two words, the high one first. -/
def Reginfo.hexPair (ri : Reginfo) (off : ℕ) : String :=
  hex 16 (ri.word64 (off + 8)) ++ hex 16 (ri.word64 off)

/-- The pairs of words at an offset differ. -/
def pairDiffers (m a : Reginfo) (off : ℕ) : Bool :=
  m.word64 off != a.word64 off || m.word64 (off + 8) != a.word64 (off + 8)

/-- A field that differs, under its label. -/
def fieldLine {w : ℕ} (label : String) (text : BitVec w → String) (m a : BitVec w) : List String :=
  lineIf (m != a) (label ++ text m ++ " vs " ++ text a ++ "\n")

def hex64 (v : BitVec 64) : String := hex 16 v.toNat

def hex32 (v : BitVec 32) : String := hex 8 v.toNat

/-- `%-2d` -/
def index (i : ℕ) : String := padRight 2 (toString i)

/-- The lines of `sve_dump_zreg_diff`, behind `pad`. -/
def sveDumpZregDiff (m a : Reginfo) (off : ℕ) : String → List ℕ → List String
  | _, [] => []
  | pad, q :: qs =>
    if pairDiffers m a (off + 16 * q) then
      (pad ++ "q" ++ index q ++ ": " ++ m.hexPair (off + 16 * q) ++ " vs " ++
        a.hexPair (off + 16 * q) ++ "\n") :: sveDumpZregDiff m a off "      " qs
    else sveDumpZregDiff m a off pad qs

/-- The lines of a vector register; the first is behind its name. -/
def zregLines (m a : Reginfo) (vq i : ℕ) : List String :=
  let off := zregOffset vq i
  if m.bytes off (vq * 16) = a.bytes off (vq * 16) then []
  else sveDumpZregDiff m a off ("  Z" ++ index i ++ " ") (List.range vq)

/-- `sve_dump_preg` -/
def sveDumpPreg (ri : Reginfo) (off vq : ℕ) : String :=
  String.join ((List.range vq).reverse.map fun q => hex 4 (ri.word16 (off + 2 * q)))

def pregLines (m a : Reginfo) (vq i : ℕ) : List String :=
  let off := pregOffset vq i
  if m.bytes off (vq * 2) = a.bytes off (vq * 2) then []
  else
    [(if i = 16 then "  FFR   : " else "  P" ++ index i ++ "    : ") ++ sveDumpPreg m off vq ++ " vs " ++
      sveDumpPreg a off vq ++ "\n"]

def vregLine (m a : Reginfo) (i : ℕ) : List String :=
  lineIf (pairDiffers m a (16 * i))
    ("  V" ++ index i ++ "    : " ++ m.hexPair (16 * i) ++ " vs " ++ a.hexPair (16 * i) ++ "\n")

/-- The lines of the vector registers. -/
def vectorLines (m a : Reginfo) : List String :=
  if m.sveVl ≠ 0 then
    (List.range 32).flatMap (zregLines m a m.vq) ++ (List.range 17).flatMap (pregLines m a m.vq)
  else (List.range 32).flatMap (vregLine m a)

def heading : String := "mismatch detail (master : apprentice):\n"

/-- `reginfo_dump_mismatch`, as the lines it prints. -/
def reginfoDumpMismatch (m a : Reginfo) : List String :=
  heading ::
    (fieldLine "  faulting insn mismatch " hex32 m.faultingInsn a.faultingInsn ++
      ((List.finRange 31).flatMap fun i : Fin 31 =>
        fieldLine ("  X" ++ index i.val ++ "    : ") hex64 (m.regs i) (a.regs i)) ++
      fieldLine "  sp     : " hex64 m.sp a.sp ++
      fieldLine "  pc     : " hex64 m.pc a.pc ++
      fieldLine "  flags  : " hex32 m.flags a.flags ++
      fieldLine "  fpsr   : " hex32 m.fpsr a.fpsr ++
      fieldLine "  fpcr   : " hex32 m.fpcr a.fpcr ++
      fieldLine "  vl    : " (fun v => toString v.toNat) m.sveVl a.sveVl ++
      vectorLines m a)

/-! ### What a record can hold -/

/-- The records that `reginfo_init` makes. -/
def Produced (ri : Reginfo) : Prop := ∃ (e : Env) (u : Frame), reginfoInit e u = ri

/-- What is behind the registers in `extra` is zero, and so is `reserved`. -/
structure Tidy (ri : Reginfo) : Prop where
  reserved : ri.reserved = 0
  extra : ∀ i, (if ri.sveVl ≠ 0 then sveSigRegsSize ri.vq else risuSimdRegsSize) ≤ i → ri.extra i = 0

theorem Produced.tidy {ri : Reginfo} (h : Produced ri) : Tidy ri := by
  obtain ⟨e, u, rfl⟩ := h
  simp only [reginfoInit]
  split_ifs with hfp hsve hnull hvl hsimd hsize
  · exact ⟨rfl, fun _ _ => rfl⟩
  · exact ⟨rfl, fun i hi => if_neg (not_lt.mpr hi)⟩
  · exact ⟨rfl, fun _ _ => rfl⟩
  · exact ⟨rfl, fun _ _ => rfl⟩
  · exact ⟨rfl, fun i hi => if_neg (not_lt.mpr hi)⟩
  · exact ⟨rfl, fun _ _ => rfl⟩
  · rw [not_not] at hvl
    refine ⟨rfl, fun i hi => if_neg (not_lt.mpr ?_)⟩
    have hne : read16 u.mem (u.records.sve + 8) ≠ 0 := by
      intro hzero
      rw [hzero] at hvl
      exact hsve (by simpa using hvl.symm)
    have hvq : (read16 u.mem (u.records.sve + 8)).toNat / 16 = e.testSve := by omega
    change (if read16 u.mem (u.records.sve + 8) ≠ 0 then
      sveSigRegsSize ((read16 u.mem (u.records.sve + 8)).toNat / 16) else risuSimdRegsSize) ≤ i at hi
    rwa [if_pos hne, hvq] at hi

/-! ### What the lines say -/

variable {m a : Reginfo}

theorem bytes_eq_iff {off len : ℕ} :
    m.bytes off len = a.bytes off len ↔ ∀ t < len, m.extra (off + t) = a.extra (off + t) := by
  rw [Reginfo.bytes, Reginfo.bytes, List.map_inj_left]
  simp only [List.mem_range]

theorem word64_eq_iff {off : ℕ} : m.word64 off = a.word64 off ↔ m.bytes off 8 = a.bytes off 8 := by
  constructor
  · intro h
    rw [← leBytes_leValue (m.bytes off 8), ← leBytes_leValue (a.bytes off 8)]
    simp only [Reginfo.bytes, List.length_map, List.length_range]
    exact congrArg (leBytes 8) h
  · intro h
    rw [Reginfo.word64, h, Reginfo.word64]

theorem pairDiffers_eq_false {off : ℕ} :
    pairDiffers m a off = false ↔ ∀ t < 16, m.extra (off + t) = a.extra (off + t) := by
  rw [pairDiffers, Bool.or_eq_false_iff, bne_eq_false_iff_eq, bne_eq_false_iff_eq, word64_eq_iff,
    word64_eq_iff, bytes_eq_iff, bytes_eq_iff]
  constructor
  · rintro ⟨hlow, hhigh⟩ t ht
    rcases Nat.lt_or_ge t 8 with h | h
    · exact hlow t h
    · have hbyte := hhigh (t - 8) (by omega)
      rwa [show off + 8 + (t - 8) = off + t by omega] at hbyte
  · intro h
    refine ⟨fun t ht => h t (by omega), fun t ht => ?_⟩
    have hbyte := h (8 + t) (by omega)
    rwa [← Nat.add_assoc] at hbyte

theorem sveDumpZregDiff_eq_nil {off : ℕ} {pad : String} {qs : List ℕ} :
    sveDumpZregDiff m a off pad qs = [] ↔ ∀ q ∈ qs, pairDiffers m a (off + 16 * q) = false := by
  induction qs generalizing pad with
  | nil => simp [sveDumpZregDiff]
  | cons q qs ih =>
    rw [sveDumpZregDiff]
    split_ifs with h
    · simp [h]
    · simp [h, ih]

theorem zregLines_eq_nil {vq i : ℕ} :
    zregLines m a vq i = [] ↔
      ∀ t < 16 * vq, m.extra (zregOffset vq i + t) = a.extra (zregOffset vq i + t) := by
  rw [zregLines]
  split_ifs with h
  · rw [bytes_eq_iff, Nat.mul_comm] at h
    exact ⟨fun _ => h, fun _ => rfl⟩
  · -- a byte that differs is in a pair that differs
    rw [sveDumpZregDiff_eq_nil]
    simp only [List.mem_range, pairDiffers_eq_false]
    constructor
    · intro hall t ht
      have hbyte := hall (t / 16) (by omega) (t % 16) (Nat.mod_lt t (by decide))
      rwa [Nat.add_assoc, Nat.div_add_mod] at hbyte
    · intro hall q hq t ht
      rw [Nat.add_assoc]
      exact hall (16 * q + t) (by omega)

theorem pregLines_eq_nil {vq i : ℕ} :
    pregLines m a vq i = [] ↔
      ∀ t < 2 * vq, m.extra (pregOffset vq i + t) = a.extra (pregOffset vq i + t) := by
  rw [Nat.mul_comm, ← bytes_eq_iff, pregLines]
  split_ifs with h <;> simp [h]

theorem forall_lt_mul {P : ℕ → Prop} {n k : ℕ} :
    (∀ i < n, ∀ t < k, P (k * i + t)) ↔ ∀ j < k * n, P j := by
  constructor
  · intro h j hj
    have hk : 0 < k := Nat.pos_of_mul_pos_right (Nat.zero_lt_of_lt hj)
    have hp := h (j / k) (Nat.div_lt_of_lt_mul hj) (j % k) (Nat.mod_lt j hk)
    rwa [Nat.div_add_mod] at hp
  · intro h i hi t ht
    apply h
    calc k * i + t < k * i + k := Nat.add_lt_add_left ht _
      _ = k * (i + 1) := (Nat.mul_succ k i).symm
      _ ≤ k * n := Nat.mul_le_mul_left k hi

/-- The vector registers are printed as far as they are recorded. -/
theorem vectorLines_eq_nil :
    vectorLines m a = [] ↔
      ∀ i < (if m.sveVl ≠ 0 then sveSigRegsSize m.vq else risuSimdRegsSize), m.extra i = a.extra i := by
  rw [vectorLines]
  split_ifs with h
  · simp only [List.append_eq_nil_iff, List.flatMap_eq_nil_iff, List.mem_range, zregLines_eq_nil,
      pregLines_eq_nil, zregOffset, pregOffset, sveSigRegsSize]
    rw [@forall_lt_mul (fun j => m.extra j = a.extra j)]
    simp only [Nat.add_assoc]
    rw [@forall_lt_mul (fun j => m.extra (16 * m.vq * 32 + j) = a.extra (16 * m.vq * 32 + j))]
    constructor
    · rintro ⟨hz, hp⟩ i hi
      rcases Nat.lt_or_ge i (16 * m.vq * 32) with hlt | hge
      · exact hz i hlt
      · have hbyte := hp (i - 16 * m.vq * 32) (by omega)
        rwa [Nat.add_sub_cancel' hge] at hbyte
    · intro hall
      exact ⟨fun i hi => hall i (by omega), fun i hi => hall _ (by omega)⟩
  · simp only [List.flatMap_eq_nil_iff, List.mem_range, vregLine, lineIf_eq_nil, pairDiffers_eq_false]
    rw [@forall_lt_mul (fun j => m.extra j = a.extra j)]
    rfl

theorem fieldLine_eq_nil {w : ℕ} {label : String} {text : BitVec w → String} {x y : BitVec w} :
    fieldLine label text x y = [] ↔ x = y := by
  simp [fieldLine]

/-- What the lines say: all but the fault address is printed. -/
theorem reginfoDumpMismatch_spec :
    reginfoDumpMismatch m a = [heading] ↔
      m.faultingInsn = a.faultingInsn ∧ m.regs = a.regs ∧ m.sp = a.sp ∧ m.pc = a.pc ∧
        m.flags = a.flags ∧ m.fpsr = a.fpsr ∧ m.fpcr = a.fpcr ∧ m.sveVl = a.sveVl ∧
        ∀ i < (if m.sveVl ≠ 0 then sveSigRegsSize m.vq else risuSimdRegsSize),
          m.extra i = a.extra i := by
  rw [reginfoDumpMismatch, List.cons_inj_right]
  simp only [List.append_eq_nil_iff, List.flatMap_eq_nil_iff, List.mem_finRange, true_implies,
    fieldLine_eq_nil, vectorLines_eq_nil, funext_iff, and_assoc]

/-- The mismatch is followed by a line of detail. -/
def Explained (m a : Reginfo) : Prop :=
  reginfoIsEq m a = false → ∃ line lines, reginfoDumpMismatch m a = heading :: line :: lines

/-- The records differ only in the fault address. -/
structure OnlyFaultAddress (m a : Reginfo) : Prop where
  ne : m.faultAddress ≠ a.faultAddress
  rest : m = { a with faultAddress := m.faultAddress }

/-- Records with the same fields have the same registers if they agree where these are. -/
theorem Tidy.extra_eq (hm : Tidy m) (ha : Tidy a) (hvl : m.sveVl = a.sveVl)
    (h : ∀ i < (if m.sveVl ≠ 0 then sveSigRegsSize m.vq else risuSimdRegsSize),
      m.extra i = a.extra i) : m.extra = a.extra := by
  funext i
  rcases Nat.lt_or_ge i (if m.sveVl ≠ 0 then sveSigRegsSize m.vq else risuSimdRegsSize) with hlt | hge
  · exact h i hlt
  · have hge' := hge
    rw [Reginfo.vq, hvl] at hge'
    rw [hm.extra i hge, ha.extra i hge']

/-- **The report of a mismatch has a line of detail if and only if the records differ in more than the
fault address.** -/
theorem explained_iff_aarch64 (hm : Produced m) (ha : Produced a) :
    Explained m a ↔ ¬OnlyFaultAddress m a := by
  have hlines : (∃ line lines, reginfoDumpMismatch m a = heading :: line :: lines) ↔
      reginfoDumpMismatch m a ≠ [heading] := by
    have hcons (lines : List String) : (∃ line rest, heading :: lines = heading :: line :: rest) ↔
        heading :: lines ≠ [heading] := by
      cases lines <;> simp
    exact hcons _
  rw [Explained, hlines]
  constructor
  · rintro h ⟨hne, hrest⟩
    have heq : reginfoIsEq m a = false := by simp [reginfoIsEq, hne]
    apply h heq
    rw [reginfoDumpMismatch_spec, hrest]
    exact ⟨rfl, rfl, rfl, rfl, rfl, rfl, rfl, rfl, fun _ _ => rfl⟩
  · intro h heq hnil
    obtain ⟨hinsn, hregs, hsp, hpc, hflags, hfpsr, hfpcr, hvl, hextra⟩ :=
      reginfoDumpMismatch_spec.mp hnil
    have hall : m.extra = a.extra := hm.tidy.extra_eq ha.tidy hvl hextra
    have hres : m.reserved = a.reserved := hm.tidy.reserved.trans ha.tidy.reserved.symm
    have hrest : m = { a with faultAddress := m.faultAddress } := by
      cases m
      cases a
      simp_all
    refine h ⟨fun hfault => ?_, hrest⟩
    rw [hfault] at hrest
    rw [hrest] at heq
    simp [reginfoIsEq] at heq

end Risu.Aarch64
