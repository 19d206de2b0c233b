import Mathlib.Tactic.IntervalCases
import Risu.Gen.Arm.Writers

/-!
# Addressing modes (`reg`, `reg_plus_imm` and so on)

Each function writes code that puts an address of the memory block into a base register, by the inverse
of an addressing mode.

* `Align`, `getOffset` — the alignment in force, and the offset that is drawn;
* `reg`, `regPlusImm`, `regPlusImmPl`, `regPlusImmVl`, `regMinusImm`, `regPlusRegShifted`, `regPlusReg` —
  the code that is written;
* `Isa.Does`, `SetsUp` — what code does, and that it sets up an address;
* `reg_setsUp`, `regPlusImm_setsUp` and so on — each of them does.
-/

namespace Risu.Gen.Arm

open Lib

/-! ### Code -/

/-- `is_pow_of_2` -/
def isPowOf2 (x : ℤ) : Bool := decide (0 < x) && uv x &&& uv (x - 1) == 0

/-- `$MAXALIGN` -/
def maxAlign : ℕ := 64

/-- A value that `align` accepts. -/
structure Align where
  value : ℕ
  isPow : isPowOf2 value = true
  le : value ≤ maxAlign

/-- The number of the base register; `none` stands for -1. -/
abbrev Emitted := List Code × Option (BitVec 64)

/-- What the functions return. -/
def baseOr (base : BitVec 64) (trashed : List (BitVec 64)) : Option (BitVec 64) :=
  if base ∈ trashed then none else some base

/-- The offset, from the whole part of `rand(2048 - 512)`. -/
def getOffset (a : Align) (draw : Fin (2048 - 512)) : ℕ :=
  (BitVec.ofNat 64 (draw + 256) &&& ~~~(BitVec.ofNat 64 a.value - 1)).toNat

section

variable (m : Mode) (a : Align) (draw : Fin (2048 - 512))

def writeGetOffset : Option (List Code) := do
  let mov ← writeMovRi m 0 (getOffset a draw)
  return mov ++ writeRisuop m 3

def reg (base : BitVec 64) (trashed : List (BitVec 64)) : Option Emitted := do
  let get ← writeGetOffset m a draw
  let move ←
    if base ≠ 0 then do
      let clear ← writeMovRi m 0 0
      pure (writeMovRr m base 0 ++ clear)
    else pure []
  return (get ++ move, baseOr base trashed)

def regPlusImm (base : BitVec 64) (imm : ℤ) (trashed : List (BitVec 64)) : Option Emitted :=
  if imm = 0 then reg m a draw base trashed
  else do
    let get ← writeGetOffset m a draw
    let sub ←
      if base ≠ 0 then do
        let mov ← writeMovRi m base imm
        let clear ← writeMovRi m 0 0
        pure (mov ++ (writeSubRrr m base 0 base ++ clear))
      else do
        let mov ← writeMovRi m 1 imm
        pure (mov ++ writeSubRrr m base 0 1)
    return (get ++ sub, baseOr base trashed)

def regPlusImmPl (base : BitVec 64) (imm : ℤ) (trashed : List (BitVec 64)) : Option Emitted :=
  if imm = 0 then reg m a draw base trashed
  else do
    let get ← writeGetOffset m a draw
    let sub ←
      if -32 ≤ -imm ∧ -imm ≤ 31 then writeAddplRri m base 0 (-imm)
      else do
        let zero ← writeMovRi m 1 0
        let mov ← writeMovRi m 2 imm
        let addpl ← writeAddplRri m 1 1 1
        let msub ← writeMsubRrrr m base 1 2 0
        pure (zero ++ (mov ++ (addpl ++ msub)))
    return (get ++ sub, baseOr base trashed)

/-- `$mul`, with the integers of the machine. -/
def vlMul (scale : ℤ) : ℤ :=
  (if scale < 0 then 1#64 >>> scale.natAbs else 1#64 <<< scale.natAbs).toInt

/-- `none` also where the divisor is zero. -/
def regPlusImmVl (base : BitVec 64) (imm scale : ℤ) (trashed : List (BitVec 64)) : Option Emitted :=
  if imm = 0 then reg m a draw base trashed
  else do
    let get ← writeGetOffset m a draw
    let mul := vlMul scale
    let immDiv := imm.tdiv mul
    let sub ←
      if mul = 0 then none
      else if imm = immDiv * mul ∧ -32 ≤ -immDiv ∧ -immDiv ≤ 31 then writeAddvlRri m base 0 (-immDiv)
      else if -32 ≤ imm ∧ imm ≤ 31 then do
        let rdvl ← writeRdvlRi m 1 imm
        let sub ← writeSubRrrs m base 0 1 .asr scale
        pure (rdvl ++ sub)
      else do
        let rdvl ← writeRdvlRi m 1 1
        let mov ← writeMovRi m 2 imm
        let sub ←
          if scale = 0 then writeMsubRrrr m base 1 2 0
          else do
            let mul ← writeMulRrr m 1 1 2
            let sub ← writeSubRrrs m base 0 1 .asr scale
            pure (mul ++ sub)
        pure (rdvl ++ (mov ++ sub))
    return (get ++ sub, baseOr base trashed)

def regMinusImm (base : BitVec 64) (imm : ℤ) (trashed : List (BitVec 64)) : Option Emitted :=
  regPlusImm m a draw base (-imm) trashed

def regPlusRegShifted (base idx : BitVec 64) (shift : ℤ) (trashed : List (BitVec 64)) :
    Option Emitted :=
  if shift < 0 ∨ 4 < shift ∨ m ≠ .aarch64 ∧ shift = 4 then none
  else do
    let saved := if base = 1 then 2 else 1
    let get ← writeGetOffset m a draw
    let code ←
      if idx = 0 then do
        let sub ← writeSubRrrs m base 0 saved .lsl shift
        pure (writeMovRr m saved 0 ++ (get ++ (sub ++ writeMovRr m 0 saved)))
      else do
        let sub ← writeSubRrrs m base 0 idx .lsl shift
        let clear ← if base ≠ 0 then writeMovRi m 0 0 else some []
        pure (get ++ (sub ++ clear))
    return (code, baseOr base trashed)

def regPlusReg (base idx : BitVec 64) (trashed : List (BitVec 64)) : Option Emitted :=
  regPlusRegShifted m a draw base idx 0 trashed

end

/-! ### The offset -/

theorem Align.eq_two_pow (a : Align) : ∃ k ≤ 6, a.value = 2 ^ k := by
  have hall : ∀ n : Fin 65, isPowOf2 (n.val : ℤ) = true → ∃ k ≤ 6, n.val = 2 ^ k := by decide +kernel
  exact hall ⟨a.value, Nat.lt_succ_of_le a.le⟩ a.isPow

theorem getOffset_eq (a : Align) (draw : Fin (2048 - 512)) :
    getOffset a draw = (draw + 256) - (draw + 256) % a.value := by
  obtain ⟨k, hk, ha⟩ := a.eq_two_pow
  have hdraw := draw.isLt
  have hpow : 2 ^ k ≤ 2 ^ 6 := Nat.pow_le_pow_right (by decide) hk
  have hx : (BitVec.ofNat 64 (draw + 256)).toNat = draw + 256 := by
    rw [BitVec.toNat_ofNat]
    omega
  have hm : BitVec.ofNat 64 a.value - 1 = BitVec.ofNat 64 (2 ^ k - 1) := by
    rw [ha]
    interval_cases k <;> rfl
  have hmask : (BitVec.ofNat 64 (draw + 256) &&& BitVec.ofNat 64 (2 ^ k - 1)).toNat =
      (draw + 256) % 2 ^ k := by
    rw [BitVec.toNat_and, hx, BitVec.toNat_ofNat, Nat.mod_eq_of_lt (by omega),
      Nat.and_two_pow_sub_one_eq_mod]
  have hle : (draw.val + 256) % 2 ^ k ≤ draw.val + 256 := Nat.mod_le _ _
  rw [getOffset, and_eq_sub, BitVec.not_not, hm, BitVec.toNat_sub_of_le, hmask, hx, ha]
  rw [BitVec.le_def, hmask, hx]
  exact hle

/-- The offset keeps its distance from both ends, and is aligned. -/
theorem getOffset_spec (a : Align) (draw : Fin (2048 - 512)) :
    256 ≤ getOffset a draw ∧ getOffset a draw < 1792 ∧ a.value ∣ getOffset a draw := by
  obtain ⟨k, hk, ha⟩ := a.eq_two_pow
  have hdraw := draw.isLt
  have hdvd : (2 : ℕ) ^ k ∣ 256 := pow_dvd_pow 2 (show k ≤ 8 by omega)
  rw [getOffset_eq, ha]
  refine ⟨?_, by omega, Nat.dvd_sub_mod _⟩
  have hmod : (draw.val + 256) % 2 ^ k = draw.val % 2 ^ k := by
    obtain ⟨q, hq⟩ := hdvd
    rw [hq, Nat.add_mul_mod_self_left]
  have hle := Nat.mod_le draw.val (2 ^ k)
  omega

/-! ### What code does -/

namespace Isa

variable (I : Isa)

abbrev Regs := BitVec I.k → BitVec I.w

/-- A register by its number. -/
abbrev reg (n : ℕ) : BitVec I.k := BitVec.ofNat I.k n

/-- Code that runs to its end, with its effect. -/
def Does (code : List Code) (f : BitVec I.w → I.Regs → I.Regs) : Prop :=
  ∀ block regs, I.run block code regs = some (f block regs)

variable {I}

theorem Does.append {c d : List Code} {f g : BitVec I.w → I.Regs → I.Regs} (hc : I.Does c f)
    (hd : I.Does d g) : I.Does (c ++ d) fun block regs => g block (f block regs) :=
  fun block regs => (I.run_append (hc block regs) d).trans (hd block (f block regs))

theorem does_nil : I.Does [] fun _ regs => regs := I.run_nil

theorem setWidth_reg {n : ℕ} (hn : n < 4) : (I.reg n).setWidth 64 = BitVec.ofNat 64 n := by
  have hpow : 2 ^ 2 ≤ 2 ^ I.k := Nat.pow_le_pow_right (by decide) I.two_le_k
  apply BitVec.eq_of_toNat_eq
  rw [BitVec.toNat_setWidth, reg, BitVec.toNat_ofNat, BitVec.toNat_ofNat, Nat.mod_eq_of_lt (a := n)]
  omega

theorem setWidth_inj {r r' : BitVec I.k} : r.setWidth 64 = r'.setWidth 64 ↔ r = r' := by
  refine ⟨fun h => ?_, fun h => h ▸ rfl⟩
  have hcut := congrArg (BitVec.setWidth I.k) h
  rwa [BitVec.setWidth_setWidth_of_le _ I.k_le, BitVec.setWidth_setWidth_of_le _ I.k_le,
    BitVec.setWidth_eq, BitVec.setWidth_eq] at hcut

/-- A register number, compared with a small number. -/
theorem setWidth_eq_ofNat {r : BitVec I.k} {n : ℕ} (hn : n < 4) :
    r.setWidth 64 = BitVec.ofNat 64 n ↔ r = I.reg n := by
  rw [← setWidth_reg hn, setWidth_inj]

theorem setWidth_eq_zero {r : BitVec I.k} : r.setWidth 64 = 0#64 ↔ r = I.reg 0 :=
  setWidth_eq_ofNat (by decide)

theorem reg_ne {n n' : ℕ} (hn : n < 4) (hn' : n' < 4) (h : n ≠ n') : I.reg n ≠ I.reg n' := by
  intro heq
  have hnum := congrArg (BitVec.setWidth 64) heq
  rw [setWidth_reg hn, setWidth_reg hn'] at hnum
  have hnat := congrArg BitVec.toNat hnum
  rw [BitVec.toNat_ofNat, BitVec.toNat_ofNat] at hnat
  omega

theorem isBase_reg {n : ℕ} (hn : n < 4) : I.IsBase (I.reg n) := I.isBase_scratch n hn

/-- A base register after an update. -/
theorem get_update {r i : BitVec I.k} (hi : I.IsIndex i) (hne : i ≠ r) (v : BitVec I.w) (regs : I.Regs) :
    I.get (Function.update regs r v) i = I.get regs i :=
  I.get_congr (fun _ => Function.update_of_ne hne v regs) hi

theorem does_writeMovRi {rd : BitVec I.k} (hrd : I.IsBase rd) {imm : ℤ} (h : -2 ^ 31 ≤ imm)
    (h' : imm < 2 ^ 32) : ∃ code, writeMovRi I.mode (rd.setWidth 64) imm = some code ∧
      I.Does code fun _ regs => Function.update regs rd (BitVec.ofInt I.w imm) :=
  I.run_writeMovRi hrd h h'

/-- `mov r0, imm` -/
theorem does_writeMovRi_zero {imm : ℤ} (h : -2 ^ 31 ≤ imm) (h' : imm < 2 ^ 32) :
    ∃ code, writeMovRi I.mode 0#64 imm = some code ∧
      I.Does code fun _ regs => Function.update regs (I.reg 0) (BitVec.ofInt I.w imm) := by
  obtain ⟨code, hcode, hdoes⟩ := does_writeMovRi (@isBase_reg I 0 (by decide)) h h'
  rw [setWidth_reg (by decide)] at hcode
  exact ⟨code, hcode, hdoes⟩

theorem does_getmemblock : I.Does (writeRisuop I.mode 3) fun block regs =>
    Function.update regs (I.reg 0) (regs (I.reg 0) + block) := I.run_getmemblock

theorem does_writeGetOffset (a : Align) (draw : Fin (2048 - 512)) :
    ∃ code, writeGetOffset I.mode a draw = some code ∧
      I.Does code fun block regs =>
        Function.update regs (I.reg 0) (BitVec.ofNat I.w (getOffset a draw) + block) := by
  obtain ⟨-, hlt, -⟩ := getOffset_spec a draw
  obtain ⟨code, hcode, hdoes⟩ :=
    @does_writeMovRi_zero I (getOffset a draw) (by omega) (by omega)
  have hget := hdoes.append does_getmemblock
  simp only [Function.update_self, Function.update_idem, BitVec.ofInt_natCast] at hget
  exact ⟨code ++ writeRisuop I.mode 3, by simp [writeGetOffset, hcode], hget⟩

theorem does_writeMovRr {rd rm : BitVec I.k} (hrd : I.IsBase rd) (hrm : I.IsBase rm) :
    I.Does (writeMovRr I.mode (rd.setWidth 64) (rm.setWidth 64)) fun _ regs =>
      Function.update regs rd (regs rm) := I.run_writeMovRr hrd hrm

theorem does_writeSubRrr {rd rn rm : BitVec I.k} (hrd : I.IsBase rd) (hrn : I.IsBase rn)
    (hrm : I.IsBase rm) :
    I.Does (writeSubRrr I.mode (rd.setWidth 64) (rn.setWidth 64) (rm.setWidth 64)) fun _ regs =>
      Function.update regs rd (regs rn - regs rm) := by
  intro block regs
  rw [I.run_writeSubRrr hrd hrn (I.isIndex_of_isBase hrm), I.get_of_isBase regs hrm]

theorem does_writeSubRrrs {rd rn rm : BitVec I.k} (hrd : I.IsBase rd) (hrn : I.IsBase rn)
    (hrm : I.IsIndex rm) {shift : ℕ} (hs : shift ≤ 4) :
    ∃ code, writeSubRrrs I.mode (rd.setWidth 64) (rn.setWidth 64) (rm.setWidth 64) .lsl shift =
        some code ∧
      I.Does code fun _ regs => Function.update regs rd (regs rn - I.get regs rm <<< shift) := by
  have hbits : (shift : ℤ) < I.mode.bits := by
    rw [Mode.bits]
    split_ifs <;> omega
  refine ⟨_, ?_, I.run_subRrrsCode hrd hrn hrm shift (by omega)⟩
  rw [writeSubRrrs_of_lt hbits, ite_self]

end Isa

/-- Code sets up an address: the addressing mode `ea` gives a place in the memory block, the registers
in `kept` stay, and only those in `tainted` depend on where the block is. -/
def SetsUp (I : Isa) (a : Align) (code : List Code) (ea : I.Regs → BitVec I.w)
    (kept tainted : Set (BitVec I.k)) : Prop :=
  ∃ f, I.Does code f ∧ ∀ regs, ∃ offset : ℕ, 256 ≤ offset ∧ offset < 1792 ∧ a.value ∣ offset ∧
    ∀ block, ea (f block regs) = block + BitVec.ofNat I.w offset ∧
      (∀ i ∈ kept, I.get (f block regs) i = I.get regs i) ∧
      ∀ block', ∀ r ∉ tainted, f block regs r = f block' regs r

section

variable {I : Isa} {a : Align} {draw : Fin (2048 - 512)} {base : BitVec I.k}

/-- The same with the offset that is drawn. -/
theorem SetsUp.intro {code : List Code} {f : BitVec I.w → I.Regs → I.Regs}
    {ea : I.Regs → BitVec I.w} {kept tainted : Set (BitVec I.k)} (draw : Fin (2048 - 512))
    (hf : I.Does code f)
    (hea : ∀ block regs, ea (f block regs) = BitVec.ofNat I.w (getOffset a draw) + block)
    (hkept : ∀ block regs, ∀ i ∈ kept, I.get (f block regs) i = I.get regs i)
    (htaint : ∀ block block' regs, ∀ r ∉ tainted, f block regs r = f block' regs r) :
    SetsUp I a code ea kept tainted := by
  obtain ⟨hlow, hhigh, hdvd⟩ := getOffset_spec a draw
  refine ⟨f, hf, fun regs => ⟨getOffset a draw, hlow, hhigh, hdvd, fun block => ⟨?_, ?_, ?_⟩⟩⟩
  · rw [hea, BitVec.add_comm]
  · exact hkept block regs
  · exact fun block' => htaint block block' regs

/-- `reg` -/
theorem reg_setsUp (hb : I.IsBase base) (trashed : List (BitVec 64)) :
    ∃ code, reg I.mode a draw (base.setWidth 64) trashed =
        some (code, baseOr (base.setWidth 64) trashed) ∧
      SetsUp I a code (fun regs => regs base) ∅ {base} := by
  obtain ⟨get, hget, hdoes⟩ := @Isa.does_writeGetOffset I a draw
  obtain ⟨clear, hclear, hdoes'⟩ := @Isa.does_writeMovRi_zero I 0 (by decide) (by decide)
  by_cases h0 : base.setWidth 64 = 0#64
  · have hbase : base = I.reg 0 := Isa.setWidth_eq_zero.mp h0
    refine ⟨get ++ [], by simp [Arm.reg, hget, h0], ?_⟩
    refine SetsUp.intro draw (hdoes.append Isa.does_nil) ?_ (by simp) ?_
    · intro block regs
      rw [hbase]
      exact Function.update_self _ _ _
    · intro block block' regs r hr
      have hne : r ≠ I.reg 0 := fun h => hr (h.trans hbase.symm)
      simp only [Function.update_of_ne hne]
  · have hbase : base ≠ I.reg 0 := fun h => h0 (Isa.setWidth_eq_zero.mpr h)
    have hmov := Isa.does_writeMovRr hb (@Isa.isBase_reg I 0 (by decide))
    rw [Isa.setWidth_reg (by decide)] at hmov
    refine ⟨get ++ (writeMovRr I.mode (base.setWidth 64) 0 ++ clear), ?_, ?_⟩
    · simp [Arm.reg, hget, hclear, h0]
    · refine SetsUp.intro draw (hdoes.append (hmov.append hdoes')) ?_ (by simp) ?_
      · intro block regs
        simp only [Function.update_of_ne hbase, Function.update_self]
      · intro block block' regs r hr
        have hne : r ≠ base := hr
        by_cases hr0 : r = I.reg 0
        · simp only [hr0, Function.update_self]
        · simp only [Function.update_of_ne hne, Function.update_of_ne hr0]

/-- `reg_plus_imm` -/
theorem regPlusImm_setsUp (hb : I.IsBase base) {imm : ℤ} (h : -2 ^ 31 ≤ imm) (h' : imm < 2 ^ 32)
    (trashed : List (BitVec 64)) :
    ∃ code, regPlusImm I.mode a draw (base.setWidth 64) imm trashed =
        some (code, baseOr (base.setWidth 64) trashed) ∧
      SetsUp I a code (fun regs => regs base + BitVec.ofInt I.w imm) ∅ {base} := by
  by_cases himm : imm = 0
  · subst himm
    obtain ⟨code, hcode, hup⟩ := @reg_setsUp I a draw base hb trashed
    refine ⟨code, by rw [regPlusImm, if_pos rfl, hcode], ?_⟩
    simpa using hup
  obtain ⟨get, hget, hdoes⟩ := @Isa.does_writeGetOffset I a draw
  by_cases h0 : base.setWidth 64 = 0#64
  · have hbase : base = I.reg 0 := Isa.setWidth_eq_zero.mp h0
    obtain ⟨mov, hmov, hdoes'⟩ := Isa.does_writeMovRi (@Isa.isBase_reg I 1 (by decide)) h h'
    have hsub := Isa.does_writeSubRrr hb (@Isa.isBase_reg I 0 (by decide))
      (@Isa.isBase_reg I 1 (by decide))
    rw [Isa.setWidth_reg (by decide)] at hmov
    rw [Isa.setWidth_reg (by decide), Isa.setWidth_reg (by decide)] at hsub
    have h10 : I.reg 1 ≠ I.reg 0 := Isa.reg_ne (by decide) (by decide) (by decide)
    refine ⟨get ++ (mov ++ writeSubRrr I.mode (base.setWidth 64) 0#64 1#64),
      by simp [regPlusImm, himm, hget, h0, hmov], ?_⟩
    refine SetsUp.intro draw (hdoes.append (hdoes'.append hsub)) ?_ (by simp) ?_
    · intro block regs
      simp only [Function.update_self, Function.update_of_ne h10.symm]
      exact BitVec.sub_add_cancel _ _
    · intro block block' regs r hr
      have hne : r ≠ base := hr
      have hne0 : r ≠ I.reg 0 := hbase ▸ hne
      simp only [Function.update_of_ne hne]
      by_cases hr1 : r = I.reg 1
      · simp only [hr1, Function.update_self]
      · simp only [Function.update_of_ne hr1, Function.update_of_ne hne0]
  · have hbase : base ≠ I.reg 0 := fun h => h0 (Isa.setWidth_eq_zero.mpr h)
    obtain ⟨mov, hmov, hdoes'⟩ := Isa.does_writeMovRi hb h h'
    obtain ⟨clear, hclear, hdoes''⟩ := @Isa.does_writeMovRi_zero I 0 (by decide) (by decide)
    have hsub := Isa.does_writeSubRrr hb (@Isa.isBase_reg I 0 (by decide)) hb
    rw [Isa.setWidth_reg (by decide)] at hsub
    refine ⟨get ++ (mov ++ (writeSubRrr I.mode (base.setWidth 64) 0#64 (base.setWidth 64) ++ clear)),
      by simp [regPlusImm, himm, hget, h0, hmov, hclear], ?_⟩
    refine SetsUp.intro draw (hdoes.append (hdoes'.append (hsub.append hdoes''))) ?_ (by simp) ?_
    · intro block regs
      simp only [Function.update_of_ne hbase, Function.update_of_ne hbase.symm, Function.update_self]
      exact BitVec.sub_add_cancel _ _
    · intro block block' regs r hr
      have hne : r ≠ base := hr
      by_cases hr0 : r = I.reg 0
      · simp only [hr0, Function.update_self]
      · simp only [Function.update_of_ne hne, Function.update_of_ne hr0]

/-- `reg_minus_imm` -/
theorem regMinusImm_setsUp (hb : I.IsBase base) {imm : ℤ} (h : -2 ^ 31 ≤ imm) (h' : imm < 2 ^ 31)
    (trashed : List (BitVec 64)) :
    ∃ code, regMinusImm I.mode a draw (base.setWidth 64) imm trashed =
        some (code, baseOr (base.setWidth 64) trashed) ∧
      SetsUp I a code (fun regs => regs base - BitVec.ofInt I.w imm) ∅ {base} := by
  obtain ⟨code, hcode, hup⟩ :=
    @regPlusImm_setsUp I a draw base hb (-imm) (by omega) (by omega) trashed
  refine ⟨code, hcode, ?_⟩
  simpa only [BitVec.ofInt_neg, ← BitVec.sub_eq_add_neg] using hup

/-- The register where an index waits while `r0` has the offset. -/
theorem exists_saved (base : BitVec I.k) : ∃ saved, I.IsBase saved ∧ saved ≠ I.reg 0 ∧ saved ≠ base ∧
    (if base.setWidth 64 = 1#64 then 2#64 else 1#64) = saved.setWidth 64 := by
  by_cases h1 : base = I.reg 1
  · refine ⟨I.reg 2, Isa.isBase_reg (by decide), Isa.reg_ne (by decide) (by decide) (by decide),
      h1 ▸ Isa.reg_ne (by decide) (by decide) (by decide), ?_⟩
    rw [if_pos ((Isa.setWidth_eq_ofNat (by decide)).mpr h1), Isa.setWidth_reg (by decide)]
  · refine ⟨I.reg 1, Isa.isBase_reg (by decide), Isa.reg_ne (by decide) (by decide) (by decide),
      Ne.symm h1, ?_⟩
    rw [if_neg fun h => h1 ((Isa.setWidth_eq_ofNat (by decide)).mp h), Isa.setWidth_reg (by decide)]

/-- `reg_plus_reg_shifted` with the index in `r0` -/
theorem regPlusRegShifted_zero (hb : I.IsBase base) (hne : I.reg 0 ≠ base) {shift : ℕ} (hs : shift ≤ 4)
    (hs' : I.mode ≠ .aarch64 → shift ≠ 4) (trashed : List (BitVec 64)) :
    ∃ code, regPlusRegShifted I.mode a draw (base.setWidth 64) 0#64 shift trashed =
        some (code, baseOr (base.setWidth 64) trashed) ∧
      SetsUp I a code (fun regs => regs base + I.get regs (I.reg 0) <<< shift) {I.reg 0} {base} := by
  have hfits : shift ≤ 4 ∧ (¬I.mode = .aarch64 → ¬(shift : ℤ) = 4) :=
    ⟨hs, fun hm h => hs' hm (by exact_mod_cast h)⟩
  have hb0 := @Isa.isBase_reg I 0 (by decide)
  obtain ⟨get, hget, hdoes⟩ := @Isa.does_writeGetOffset I a draw
  obtain ⟨saved, hsb, hs0, hsne, hnum⟩ := exists_saved base
  obtain ⟨sub, hsub, hdoes'⟩ := Isa.does_writeSubRrrs hb hb0 (I.isIndex_of_isBase hsb) hs
  have hsave := Isa.does_writeMovRr hsb hb0
  have hback := Isa.does_writeMovRr hb0 hsb
  rw [Isa.setWidth_reg (by decide)] at hsub hsave hback
  refine ⟨writeMovRr I.mode (saved.setWidth 64) 0#64 ++
    (get ++ (sub ++ writeMovRr I.mode 0#64 (saved.setWidth 64))), ?_, ?_⟩
  · simpa [regPlusRegShifted, hget, hnum, hsub] using hfits
  refine SetsUp.intro draw (hsave.append (hdoes.append (hdoes'.append hback))) ?_ ?_ ?_
  · intro block regs
    simp only [I.get_of_isBase _ hb0, I.get_of_isBase _ hsb, Function.update_self,
      Function.update_of_ne hne.symm, Function.update_of_ne hsne, Function.update_of_ne hs0]
    exact BitVec.sub_add_cancel _ _
  · rintro block regs i rfl
    simp only [I.get_of_isBase _ hb0, Function.update_self, Function.update_of_ne hsne,
      Function.update_of_ne hs0]
  · intro block block' regs r hr
    have hrb : r ≠ base := hr
    by_cases hr0 : r = I.reg 0
    · simp only [hr0, Function.update_self, Function.update_of_ne hsne, Function.update_of_ne hs0]
    · simp only [Function.update_of_ne hr0, Function.update_of_ne hrb]

/-- `reg_plus_reg_shifted` -/
theorem regPlusRegShifted_setsUp (hb : I.IsBase base) {idx : BitVec I.k} (hi : I.IsIndex idx)
    (hne : idx ≠ base) {shift : ℕ} (hs : shift ≤ 4) (hs' : I.mode ≠ .aarch64 → shift ≠ 4)
    (trashed : List (BitVec 64)) :
    ∃ code, regPlusRegShifted I.mode a draw (base.setWidth 64) (idx.setWidth 64) shift trashed =
        some (code, baseOr (base.setWidth 64) trashed) ∧
      SetsUp I a code (fun regs => regs base + I.get regs idx <<< shift) {idx} {base} := by
  by_cases h0 : idx.setWidth 64 = 0#64
  · obtain rfl : idx = I.reg 0 := Isa.setWidth_eq_zero.mp h0
    rw [h0]
    exact regPlusRegShifted_zero hb hne hs hs' trashed
  have hfits : shift ≤ 4 ∧ (¬I.mode = .aarch64 → ¬(shift : ℤ) = 4) :=
    ⟨hs, fun hm h => hs' hm (by exact_mod_cast h)⟩
  obtain ⟨get, hget, hdoes⟩ := @Isa.does_writeGetOffset I a draw
  have hidx : idx ≠ I.reg 0 := fun h => h0 (Isa.setWidth_eq_zero.mpr h)
  obtain ⟨sub, hsub, hdoes'⟩ := Isa.does_writeSubRrrs hb (@Isa.isBase_reg I 0 (by decide)) hi hs
  rw [Isa.setWidth_reg (by decide)] at hsub
  by_cases hb00 : base.setWidth 64 = 0#64
  · have hbase : base = I.reg 0 := Isa.setWidth_eq_zero.mp hb00
    rw [hb00] at hsub
    refine ⟨get ++ (sub ++ []), by simpa [regPlusRegShifted, h0, hget, hb00, hsub] using hfits, ?_⟩
    refine SetsUp.intro draw (hdoes.append (hdoes'.append Isa.does_nil)) ?_ ?_ ?_
    · intro block regs
      simp only [Function.update_self, Isa.get_update hi hne, Isa.get_update hi hidx]
      exact BitVec.sub_add_cancel _ _
    · rintro block regs i rfl
      simp only [Isa.get_update hi hne, Isa.get_update hi hidx]
    · intro block block' regs r hr
      have hrb : r ≠ base := hr
      simp only [Function.update_of_ne hrb, Function.update_of_ne (hbase ▸ hrb)]
  · have hbase : base ≠ I.reg 0 := fun h => hb00 (Isa.setWidth_eq_zero.mpr h)
    obtain ⟨clear, hclear, hdoes''⟩ := @Isa.does_writeMovRi_zero I 0 (by decide) (by decide)
    refine ⟨get ++ (sub ++ clear), by simpa [regPlusRegShifted, h0, hget, hb00, hsub, hclear] using hfits, ?_⟩
    refine SetsUp.intro draw (hdoes.append (hdoes'.append hdoes'')) ?_ ?_ ?_
    · intro block regs
      simp only [Function.update_self, Function.update_of_ne hbase, Isa.get_update hi hne,
        Isa.get_update hi hidx]
      exact BitVec.sub_add_cancel _ _
    · rintro block regs i rfl
      simp only [Isa.get_update hi hne, Isa.get_update hi hidx]
    · intro block block' regs r hr
      have hrb : r ≠ base := hr
      by_cases hr0 : r = I.reg 0
      · simp only [hr0, Function.update_self]
      · simp only [Function.update_of_ne hr0, Function.update_of_ne hrb]

/-- `reg_plus_reg` -/
theorem regPlusReg_setsUp (hb : I.IsBase base) {idx : BitVec I.k} (hi : I.IsIndex idx)
    (hne : idx ≠ base) (trashed : List (BitVec 64)) :
    ∃ code, regPlusReg I.mode a draw (base.setWidth 64) (idx.setWidth 64) trashed =
        some (code, baseOr (base.setWidth 64) trashed) ∧
      SetsUp I a code (fun regs => regs base + I.get regs idx) {idx} {base} := by
  obtain ⟨code, hcode, hup⟩ := @regPlusRegShifted_setsUp I a draw base hb idx hi hne 0 (by decide)
    (fun _ => by decide) trashed
  refine ⟨code, hcode, ?_⟩
  simpa only [BitVec.shiftLeft_zero] using hup

end

end Risu.Gen.Arm
