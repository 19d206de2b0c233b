import Risu.Gen.Ppc.Double

/-!
# The initial FPSCR (`risugen_ppc.pm`)

The value is walked from its low bit on, and the number of the bit is the field of the instruction.
The instructions count bits from the high end.

* `writeMtfsb0`, `writeMtfsb1`, `writeInitFpscrCode` — the words that are written;
* `lastRequest` — the last word that addresses a bit of the FPSCR;
* `initialisesFpscr_iff` — the FPSCR is asked for exactly when the value reads the same in both
  directions.
-/

namespace Risu.Gen.Ppc

open Lib

def mtfsb (xo crbD : BitVec 64) : Word :=
  insn32 ((63#64 <<< 26) ||| (crbD <<< 21) ||| (xo <<< 1) ||| 0#64)

/-- `mtfsb0 crbD` -/
def writeMtfsb0 (crbD : BitVec 64) : Word := mtfsb 70#64 crbD

/-- `mtfsb1 crbD` -/
def writeMtfsb1 (crbD : BitVec 64) : Word := mtfsb 38#64 crbD

/-- One turn of the loop. -/
def fpscrWord (value : ℤ) (i : ℕ) : Word :=
  if big (value / 2 ^ i) &&& 1#64 ≠ 0 then writeMtfsb1 (BitVec.ofNat 64 i)
  else writeMtfsb0 (BitVec.ofNat 64 i)

def writeInitFpscrCode (value : ℤ) : List Word := (List.range 32).map (fpscrWord value)

/-- The bit that a word addresses, counted from the high end, and whether it is to be set. -/
def decodeMtfsb (w : Word) : Option (BitVec 5 × Bool) :=
  if w.extractLsb' 26 6 = 63 ∧ w.extractLsb' 0 1 = 0 then
    if w.extractLsb' 1 10 = 38 then some (w.extractLsb' 21 5, true)
    else if w.extractLsb' 1 10 = 70 then some (w.extractLsb' 21 5, false)
    else none
  else none

/-- What the last word that addresses the bit `bt` asks for. -/
def lastRequest (code : List Word) (bt : BitVec 5) : Option Bool :=
  code.foldl (fun last w => ((decodeMtfsb w).filter fun p => p.1 = bt).map Prod.snd <|> last) none

/-- For every bit of the value, the last word that addresses the bit of this weight asks for it. -/
def InitialisesFpscr (v : BitVec 32) : Prop :=
  ∀ b < 32, lastRequest (writeInitFpscrCode v.toNat) (BitVec.ofNat 5 (31 - b)) = some (v.getLsbD b)

theorem decodeMtfsb_mtfsb (xo : BitVec 10) (bt : BitVec 5) :
    decodeMtfsb (mtfsb (xo.setWidth 64) (bt.setWidth 64)) =
      if xo = 38 then some (bt, true) else if xo = 70 then some (bt, false) else none := by
  have hop : (mtfsb (xo.setWidth 64) (bt.setWidth 64)).extractLsb' 26 6 = 63 := by
    simp [insn32, mtfsb, BitVec.extractLsb'_or]
  have hrc : (mtfsb (xo.setWidth 64) (bt.setWidth 64)).extractLsb' 0 1 = 0 := by
    simp [insn32, mtfsb, BitVec.extractLsb'_or]
  have hxo : (mtfsb (xo.setWidth 64) (bt.setWidth 64)).extractLsb' 1 10 = xo := by
    simp [insn32, mtfsb, BitVec.extractLsb'_or]
  have hbt : (mtfsb (xo.setWidth 64) (bt.setWidth 64)).extractLsb' 21 5 = bt := by
    simp [insn32, mtfsb, BitVec.extractLsb'_or]
  rw [decodeMtfsb, hop, hrc, hxo, hbt, if_pos ⟨rfl, rfl⟩]

/-- The test of the loop is the bit of the value. -/
theorem big_shift_and_one (v : BitVec 32) (i : ℕ) :
    big ((v.toNat : ℤ) / 2 ^ i) &&& 1#64 ≠ 0 ↔ v.getLsbD i = true := by
  have hdiv : ((v.toNat : ℤ) / 2 ^ i) = ((v.toNat / 2 ^ i : ℕ) : ℤ) := by norm_cast
  have hbit : (BitVec.ofNat 64 (v.toNat / 2 ^ i)).getLsbD 0 = v.getLsbD i := by
    rw [BitVec.getLsbD_ofNat, Nat.testBit_zero, ← BitVec.testBit_toNat,
      Nat.testBit_eq_decide_div_mod_eq]
    simp
  rw [hdiv, big, BitVec.ofInt_natCast, ← hbit, BitVec.and_one_eq_setWidth_ofBool_getLsbD]
  cases (BitVec.ofNat 64 (v.toNat / 2 ^ i)).getLsbD 0 <;> decide

theorem decodeMtfsb_fpscrWord (v : BitVec 32) {i : ℕ} (hi : i < 32) :
    decodeMtfsb (fpscrWord v.toNat i) = some (BitVec.ofNat 5 i, v.getLsbD i) := by
  have hnum : BitVec.ofNat 64 i = (BitVec.ofNat 5 i).setWidth 64 := by
    apply BitVec.eq_of_toNat_eq
    rw [BitVec.toNat_setWidth, BitVec.toNat_ofNat, BitVec.toNat_ofNat, Nat.mod_eq_of_lt hi]
  rw [fpscrWord, hnum]
  by_cases hbit : v.getLsbD i = true
  · rw [if_pos ((big_shift_and_one v i).mpr hbit), hbit]
    exact decodeMtfsb_mtfsb 38#10 _
  · rw [if_neg (mt (big_shift_and_one v i).mp hbit), Bool.eq_false_of_not_eq_true hbit]
    exact decodeMtfsb_mtfsb 70#10 _

/-- After `n` turns, the bits with a number below `n` have been asked for. -/
theorem lastRequest_turns (v : BitVec 32) (bt : BitVec 5) {n : ℕ} (hn : n ≤ 32) :
    lastRequest ((List.range n).map (fpscrWord v.toNat)) bt =
      if bt.toNat < n then some (v.getLsbD bt.toNat) else none := by
  induction n with
  | zero => simp [lastRequest]
  | succ n ih =>
    have hbt : BitVec.ofNat 5 n = bt ↔ bt.toNat = n := by
      rw [← BitVec.toNat_inj, BitVec.toNat_ofNat, Nat.mod_eq_of_lt (show n < 2 ^ 5 by omega), eq_comm]
    rw [lastRequest, List.range_succ, List.map_append, List.foldl_append]
    rw [← lastRequest, ih (by omega), List.map_singleton, List.foldl_cons, List.foldl_nil,
      decodeMtfsb_fpscrWord v (by omega)]
    by_cases heq : bt.toNat = n
    · simp [Option.filter, hbt, heq]
    · have hlt : bt.toNat < n + 1 ↔ bt.toNat < n := by omega
      simp [Option.filter, hbt, heq, hlt]

/-- Every bit is asked for, but by its number from the other end. -/
theorem lastRequest_writeInitFpscrCode (v : BitVec 32) {b : ℕ} (hb : b < 32) :
    lastRequest (writeInitFpscrCode v.toNat) (BitVec.ofNat 5 (31 - b)) = some (v.getLsbD (31 - b)) := by
  have hnum : (BitVec.ofNat 5 (31 - b)).toNat = 31 - b := by
    rw [BitVec.toNat_ofNat, Nat.mod_eq_of_lt (by omega)]
  rw [writeInitFpscrCode, lastRequest_turns v _ (le_refl 32), hnum, if_pos (by omega)]

/-- **The FPSCR that is asked for is the value if and only if the value reads the same in both
directions.** -/
theorem initialisesFpscr_iff (v : BitVec 32) : InitialisesFpscr v ↔ v.reverse = v := by
  have hrev : ∀ b < 32, v.reverse.getLsbD b = v.getLsbD (31 - b) := by
    intro b hb
    rw [BitVec.getLsbD_reverse, BitVec.getMsbD_eq_getLsbD, decide_eq_true hb, Bool.true_and,
      show 32 - 1 - b = 31 - b by omega]
  constructor
  · intro h
    apply BitVec.eq_of_getLsbD_eq
    intro b hb
    have hreq := h b hb
    rw [lastRequest_writeInitFpscrCode v hb] at hreq
    rw [hrev b hb]
    exact Option.some.inj hreq
  · intro h b hb
    rw [lastRequest_writeInitFpscrCode v hb, ← hrev b hb, h]

/-- `--fpscr 1` asks for the summary bit of the exceptions. -/
theorem not_initialisesFpscr_one : ¬InitialisesFpscr 1#32 := by
  intro h
  have hreq := h 0 (by decide)
  rw [lastRequest_writeInitFpscrCode _ (by decide)] at hreq
  exact absurd hreq (by decide)

end Risu.Gen.Ppc
