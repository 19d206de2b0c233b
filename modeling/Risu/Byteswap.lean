import Risu.Lib.BitField
import Risu.Lib.ByteOrder

/-!
# Byte swapping (`endianswap.h`)

* `Byteswap` — the three macros in one build; `builtin`, `fallback` — the two kinds of builds;
* `fallback32_eq`, `getLsbD_fallback64` — what the fallback computes, bit by bit;
* `fallback32_signed_iff`, `fallback64_iff` — where it reverses the bytes;
* `Endianswap` — the branch of the header that a build takes.
-/

namespace Risu

open Lib

/-! ### The macros -/

/-- The macros, with results cut to the width of the operand.  `BYTESWAP_32` has operands with a sign and
without. -/
structure Byteswap where
  swap16 : BitVec 16 → BitVec 16
  swap32 : Bool → BitVec 32 → BitVec 32
  swap64 : BitVec 64 → BitVec 64

namespace Byteswap

/-- `__builtin_bswap16` and the others. -/
def builtin : Byteswap where
  swap16 := swapVec 2
  swap32 _ := swapVec 4
  swap64 := swapVec 8

/-- An operand, or its value shifted to the right, as an `unsigned long` of `ul` bits. -/
def toLong (ul : ℕ) (signed : Bool) (x : BitVec 32) : BitVec ul :=
  if signed then x.signExtend ul else x.setWidth ul

def shiftRight (signed : Bool) (x : BitVec 32) (k : ℕ) : BitVec 32 :=
  if signed then x.sshiftRight k else x >>> k

/-- The macros without built-ins. -/
def fallback (ul : ℕ) : Byteswap where
  swap16 x := (((x.setWidth ul) >>> 8) ||| ((x.setWidth ul &&& BitVec.ofNat ul 0xff) <<< 8)).setWidth 16
  swap32 signed x :=
    (toLong ul signed (shiftRight signed x 24) |||
      (toLong ul signed (shiftRight signed x 8) &&& BitVec.ofNat ul 0xff00) |||
      ((toLong ul signed x &&& BitVec.ofNat ul 0xff00) <<< 8) |||
      toLong ul signed (x <<< 24)).setWidth 32
  swap64 x :=
    (x >>> 56) |||
      ((x &&& 0x00ff000000000000#64) >>> 48) |||
      ((x &&& 0x0000ff0000000000#64) >>> 40) |||
      ((x &&& 0x000000ff00000000#64) >>> 32) |||
      ((x &&& 0x00000000ff000000#64) <<< 32) |||
      ((x &&& 0x0000000000ff0000#64) <<< 40) |||
      ((x &&& 0x000000000000ff00#64) <<< 48) |||
      ((x &&& 0x00000000000000ff#64) <<< 56)

variable (M : Byteswap)

/-- A `reg_t` or an `arch_ptr_t`, by its `sizeof`. -/
def reg {w : ℕ} (x : BitVec w) : BitVec w :=
  if w = 64 then (M.swap64 (x.setWidth 64)).setWidth w
  else (M.swap32 false (x.setWidth 32)).setWidth w

/-! ### What the fallback computes -/

variable {ul : ℕ}

theorem fallback16 (hul : 32 ≤ ul) (x : BitVec 16) : (fallback ul).swap16 x = swapVec 2 x := by
  have hmask : BitVec.ofNat ul 0xff = ones ul 8 := rfl
  apply BitVec.eq_of_getLsbD_eq
  intro i hi
  have hrev : (swapVec 2 x).getLsbD i = x.getLsbD (8 * (2 - 1 - i / 8) + i % 8) := @getLsbD_swapVec 2 x i hi
  rw [fallback]
  dsimp only
  rw [hrev, hmask, BitVec.getLsbD_setWidth, BitVec.getLsbD_or, BitVec.getLsbD_ushiftRight,
    BitVec.getLsbD_shiftLeft, BitVec.getLsbD_and, getLsbD_ones, BitVec.getLsbD_setWidth,
    BitVec.getLsbD_setWidth]
  rcases Nat.lt_or_ge i 8 with h | h
  · have hidx : 8 * (2 - 1 - i / 8) + i % 8 = 8 + i := by omega
    rw [hidx]
    simp [hi, h, show 8 + i < ul by omega]
  · have hidx : 8 * (2 - 1 - i / 8) + i % 8 = i - 8 := by omega
    have hout : x.getLsbD (8 + i) = false := BitVec.getLsbD_of_ge x _ (by omega)
    rw [hidx]
    simp [hi, hout, show i < ul by omega, show ¬i < 8 by omega, show i - 8 < ul by omega,
      show i - 8 < 8 by omega]

/-- In 32 bits. -/
theorem fallback32_eq (hul : 32 ≤ ul) (signed : Bool) (x : BitVec 32) :
    (fallback ul).swap32 signed x =
      shiftRight signed x 24 ||| (shiftRight signed x 8 &&& (ones 32 8 <<< 8)) |||
        ((x &&& (ones 32 8 <<< 8)) <<< 8) ||| (x <<< 24) := by
  have hcut (y : BitVec 32) : (toLong ul signed y).setWidth 32 = y := by
    rw [toLong]
    split_ifs
    · apply BitVec.eq_of_getLsbD_eq
      intro i hi
      rw [BitVec.getLsbD_setWidth, BitVec.getLsbD_signExtend, if_pos hi, decide_eq_true hi,
        decide_eq_true (hi.trans_le hul), Bool.true_and, Bool.true_and]
    · rw [BitVec.setWidth_setWidth_of_le _ hul, BitVec.setWidth_eq]
  have hmask : (BitVec.ofNat ul 0xff00).setWidth 32 = ones 32 8 <<< 8 :=
    BitVec.setWidth_ofNat_of_le hul 0xff00
  rw [fallback]
  dsimp only
  rw [BitVec.setWidth_or, BitVec.setWidth_or, BitVec.setWidth_or, BitVec.setWidth_and,
    BitVec.setWidth_shiftLeft_of_le hul, BitVec.setWidth_and, hcut, hcut, hcut, hcut, hmask]

theorem getLsbD_shiftRight (signed : Bool) (x : BitVec 32) (k : ℕ) {i : ℕ} (hi : i < 32) :
    (shiftRight signed x k).getLsbD i = if k + i < 32 then x.getLsbD (k + i) else signed && x.msb := by
  rw [shiftRight]
  cases signed with
  | true =>
    rw [if_pos rfl, BitVec.getLsbD_sshiftRight, decide_eq_false (not_le.mpr hi)]
    rfl
  | false =>
    rw [if_neg Bool.false_ne_true, BitVec.getLsbD_ushiftRight]
    split_ifs with hk
    · rfl
    · exact BitVec.getLsbD_of_ge x _ (not_lt.mp hk)

/-- The bytes in reverse order, but the sign of a negative operand is in all but the lowest one. -/
theorem getLsbD_fallback32 (hul : 32 ≤ ul) (signed : Bool) (x : BitVec 32) {i : ℕ} (hi : i < 32) :
    ((fallback ul).swap32 signed x).getLsbD i =
      ((swapVec 4 x).getLsbD i || (decide (8 ≤ i) && (signed && x.msb))) := by
  have hrev : (swapVec 4 x).getLsbD i = x.getLsbD (8 * (4 - 1 - i / 8) + i % 8) :=
    @getLsbD_swapVec 4 x i hi
  rw [fallback32_eq hul, BitVec.getLsbD_or, BitVec.getLsbD_or, BitVec.getLsbD_or, BitVec.getLsbD_and,
    getLsbD_shiftRight signed x 24 hi, getLsbD_shiftRight signed x 8 hi, getLsbD_ones_shiftLeft,
    BitVec.getLsbD_shiftLeft, BitVec.getLsbD_and, getLsbD_ones_shiftLeft, BitVec.getLsbD_shiftLeft, hrev]
  have hcases : i < 8 ∨ 8 ≤ i ∧ i < 16 ∨ 16 ≤ i ∧ i < 24 ∨ 24 ≤ i := by omega
  rcases hcases with h | ⟨h, h'⟩ | ⟨h, h'⟩ | h
  · have hidx : 8 * (4 - 1 - i / 8) + i % 8 = 24 + i := by omega
    have hfield : ¬ InField 8 8 i := fun hin => by have := hin.1; omega
    rw [hidx]
    simp [hfield, h, show i < 24 by omega, show 24 + i < 32 by omega, not_le.mpr h]
  · have hidx : 8 * (4 - 1 - i / 8) + i % 8 = 8 + i := by omega
    have hfield : InField 8 8 i := ⟨h, h'⟩
    have hfield' : ¬ InField 8 8 (i - 8) := fun hin => by have := hin.1; omega
    rw [hidx]
    simp [hfield, hfield', hi, h, show i < 24 by omega, show ¬24 + i < 32 by omega,
      show 8 + i < 32 by omega, Bool.or_comm]
  · have hidx : 8 * (4 - 1 - i / 8) + i % 8 = i - 8 := by omega
    have hfield : ¬ InField 8 8 i := fun hin => by have := hin.2; omega
    have hfield' : InField 8 8 (i - 8) := ⟨by omega, by omega⟩
    rw [hidx]
    simp [hfield, hfield', hi, h', show 8 ≤ i by omega, show ¬24 + i < 32 by omega,
      show ¬i < 8 by omega, show i - 8 < 32 by omega, Bool.or_comm]
  · have hidx : 8 * (4 - 1 - i / 8) + i % 8 = i - 24 := by omega
    have hfield : ¬ InField 8 8 i := fun hin => by have := hin.2; omega
    have hfield' : ¬ InField 8 8 (i - 8) := fun hin => by have := hin.2; omega
    rw [hidx]
    simp [hfield, hfield', hi, show 8 ≤ i by omega, show ¬24 + i < 32 by omega, not_lt.mpr h,
      Bool.or_comm]

/-- The upper four bytes are in the lowest one, the lower four in the highest, and nothing is between. -/
theorem getLsbD_fallback64 (x : BitVec 64) {i : ℕ} (hi : i < 64) :
    ((fallback ul).swap64 x).getLsbD i =
      if i < 8 then x.getLsbD (56 + i) || x.getLsbD (48 + i) || x.getLsbD (40 + i) || x.getLsbD (32 + i)
      else if i < 56 then false
      else x.getLsbD (i - 32) || x.getLsbD (i - 40) || x.getLsbD (i - 48) || x.getLsbD (i - 56) := by
  have hdown (pos k : ℕ) : ((x &&& (ones 64 8 <<< pos)) >>> k).getLsbD i =
      (x.getLsbD (k + i) && (decide (k + i < 64) && decide (InField pos 8 (k + i)))) := by
    rw [BitVec.getLsbD_ushiftRight, BitVec.getLsbD_and, getLsbD_ones_shiftLeft]
  have hup (pos k : ℕ) : ((x &&& (ones 64 8 <<< pos)) <<< k).getLsbD i =
      (!decide (i < k) && (x.getLsbD (i - k) && decide (InField pos 8 (i - k)))) := by
    rw [BitVec.getLsbD_shiftLeft, BitVec.getLsbD_and, getLsbD_ones_shiftLeft, decide_eq_true hi,
      Bool.true_and, decide_eq_true (show i - k < 64 by omega), Bool.true_and]
  show ((x >>> 56) ||| ((x &&& (ones 64 8 <<< 48)) >>> 48) ||| ((x &&& (ones 64 8 <<< 40)) >>> 40) |||
    ((x &&& (ones 64 8 <<< 32)) >>> 32) ||| ((x &&& (ones 64 8 <<< 24)) <<< 32) |||
    ((x &&& (ones 64 8 <<< 16)) <<< 40) ||| ((x &&& (ones 64 8 <<< 8)) <<< 48) |||
    ((x &&& (ones 64 8 <<< 0)) <<< 56)).getLsbD i = _
  have hin (pos j : ℕ) : decide (InField pos 8 j) = decide (pos ≤ j ∧ j < pos + 8) := rfl
  simp only [BitVec.getLsbD_or, hdown, hup, BitVec.getLsbD_ushiftRight, hin]
  split_ifs with h8 h56
  · simp [show i < 32 by omega, show i < 40 by omega, show i < 48 by omega, show i < 56 by omega,
      show 48 + i < 64 by omega, show 40 + i < 64 by omega, show 32 + i < 64 by omega,
      show 48 + i < 56 by omega, show 40 + i < 48 by omega, show 32 + i < 40 by omega]
  · have hout : x.getLsbD (56 + i) = false := BitVec.getLsbD_of_ge x _ (by omega)
    simp [hout, h56, show ¬48 + i < 56 by omega, show ¬40 + i < 48 by omega, show ¬32 + i < 40 by omega,
      show ¬24 ≤ i - 32 by omega, show ¬16 ≤ i - 40 by omega, show ¬8 ≤ i - 48 by omega]
  · have hout : x.getLsbD (56 + i) = false := BitVec.getLsbD_of_ge x _ (by omega)
    simp [hout, show ¬48 + i < 56 by omega, show ¬40 + i < 48 by omega, show ¬32 + i < 40 by omega,
      show ¬i < 32 by omega, show ¬i < 40 by omega, show ¬i < 48 by omega, h56,
      show 24 ≤ i - 32 by omega, show i - 32 < 32 by omega, show 16 ≤ i - 40 by omega,
      show i - 40 < 24 by omega, show 8 ≤ i - 48 by omega, show i - 48 < 16 by omega,
      show i - 56 < 8 by omega]

/-! ### Where the bytes are reversed -/

/-- Not negative, or all ones below the highest byte. -/
def PlainSign (x : BitVec 32) : Prop := x.msb = false ∨ ∀ i < 24, x.getLsbD i = true

/-- Nothing between the lowest and the highest byte. -/
def Outer (x : BitVec 64) : Prop := ∀ i, 8 ≤ i → i < 56 → x.getLsbD i = false

theorem fallback32_unsigned (hul : 32 ≤ ul) (x : BitVec 32) : (fallback ul).swap32 false x = swapVec 4 x := by
  apply BitVec.eq_of_getLsbD_eq
  intro i hi
  rw [getLsbD_fallback32 hul false x hi, Bool.false_and, Bool.and_false, Bool.or_false]

theorem fallback32_signed_iff (hul : 32 ≤ ul) (x : BitVec 32) :
    (fallback ul).swap32 true x = swapVec 4 x ↔ PlainSign x := by
  have hrev {i : ℕ} (hi : i < 32) : (swapVec 4 x).getLsbD i = x.getLsbD (8 * (4 - 1 - i / 8) + i % 8) :=
    @getLsbD_swapVec 4 x i hi
  constructor
  · intro h
    rcases Bool.eq_false_or_eq_true x.msb with hmsb | hmsb
    · refine .inr fun i hi => ?_
      -- The bit comes from the byte on the other side of the middle.
      have hj : 8 * (3 - i / 8) + i % 8 < 32 := by omega
      have hidx : 8 * (4 - 1 - (8 * (3 - i / 8) + i % 8) / 8) + (8 * (3 - i / 8) + i % 8) % 8 = i := by omega
      have hbit := getLsbD_fallback32 hul true x hj
      rw [h, hrev hj, hidx, hmsb, decide_eq_true (show 8 ≤ 8 * (3 - i / 8) + i % 8 by omega)] at hbit
      rw [hbit]
      exact Bool.or_true _
    · exact .inl hmsb
  · intro h
    apply BitVec.eq_of_getLsbD_eq
    intro i hi
    rw [getLsbD_fallback32 hul true x hi]
    rcases h with hmsb | hones
    · rw [hmsb, Bool.and_false, Bool.and_false, Bool.or_false]
    · rcases Nat.lt_or_ge i 8 with h8 | h8
      · rw [decide_eq_false (not_le.mpr h8), Bool.false_and, Bool.or_false]
      · rw [hrev hi, hones _ (by omega), Bool.true_or]

/-- With the sign set, the highest byte comes to the lowest place, and ones to the others. -/
theorem fallback32_negative (hul : 32 ≤ ul) {x : BitVec 32} (hx : x.msb = true) :
    (fallback ul).swap32 true x = 0xffffff00#32 ||| (x.extractLsb' 24 8).setWidth 32 := by
  have hones : ∀ i < 32, (0xffffff00#32).getLsbD i = decide (8 ≤ i) := by decide
  apply BitVec.eq_of_getLsbD_eq
  intro i hi
  have hrev : (swapVec 4 x).getLsbD i = x.getLsbD (8 * (4 - 1 - i / 8) + i % 8) :=
    @getLsbD_swapVec 4 x i hi
  rw [getLsbD_fallback32 hul true x hi, hx, BitVec.getLsbD_or, hones i hi, BitVec.getLsbD_setWidth,
    BitVec.getLsbD_extractLsb', hrev]
  rcases Nat.lt_or_ge i 8 with h8 | h8
  · have hidx : 8 * (4 - 1 - i / 8) + i % 8 = 24 + i := by omega
    simp [hidx, hi, h8, not_le.mpr h8]
  · simp [h8]

/-- The highest byte comes to the lowest place. -/
theorem swapVec_low (x : BitVec 32) : (swapVec 4 x).extractLsb' 0 8 = x.extractLsb' 24 8 := by
  apply BitVec.eq_of_getLsbD_eq
  intro i hi
  have hidx : 8 * (4 - 1 - (0 + i) / 8) + (0 + i) % 8 = 24 + i := by omega
  have hrev : (swapVec 4 x).getLsbD (0 + i) = x.getLsbD (8 * (4 - 1 - (0 + i) / 8) + (0 + i) % 8) :=
    @getLsbD_swapVec 4 x (0 + i) (by omega)
  rw [BitVec.getLsbD_extractLsb', BitVec.getLsbD_extractLsb', hrev, hidx]

theorem msb_high (x : BitVec 32) : (x.extractLsb' 24 8).msb = x.msb := by
  rw [BitVec.msb_eq_getLsbD_last, BitVec.msb_eq_getLsbD_last, BitVec.getLsbD_extractLsb']
  rfl

theorem fallback64_iff (x : BitVec 64) : (fallback ul).swap64 x = swapVec 8 x ↔ Outer x := by
  have hrev {i : ℕ} (hi : i < 64) : (swapVec 8 x).getLsbD i = x.getLsbD (8 * (8 - 1 - i / 8) + i % 8) :=
    @getLsbD_swapVec 8 x i hi
  constructor
  · intro h i h8 h56
    have hj : 8 * (7 - i / 8) + i % 8 < 64 := by omega
    have hidx : 8 * (8 - 1 - (8 * (7 - i / 8) + i % 8) / 8) + (8 * (7 - i / 8) + i % 8) % 8 = i := by omega
    have hbit := @getLsbD_fallback64 ul x _ hj
    rwa [h, hrev hj, hidx, if_neg (by omega), if_pos (by omega)] at hbit
  · intro h
    apply BitVec.eq_of_getLsbD_eq
    intro i hi
    rw [getLsbD_fallback64 x hi, hrev hi]
    split_ifs with h8 h56
    · have hidx : 8 * (8 - 1 - i / 8) + i % 8 = 56 + i := by omega
      rw [hidx, h (48 + i) (by omega) (by omega), h (40 + i) (by omega) (by omega),
        h (32 + i) (by omega) (by omega), Bool.or_false, Bool.or_false, Bool.or_false]
    · exact (h _ (by omega) (by omega)).symm
    · have hidx : 8 * (8 - 1 - i / 8) + i % 8 = i - 56 := by omega
      rw [hidx, h (i - 32) (by omega) (by omega), h (i - 40) (by omega) (by omega),
        h (i - 48) (by omega) (by omega), Bool.false_or, Bool.false_or, Bool.false_or]

theorem outer_swapVec {x : BitVec 64} (h : Outer x) : Outer (swapVec 8 x) := by
  intro i h8 h56
  have hrev : (swapVec 8 x).getLsbD i = x.getLsbD (8 * (8 - 1 - i / 8) + i % 8) :=
    @getLsbD_swapVec 8 x i (by omega)
  rw [hrev]
  exact h _ (by omega) (by omega)

/-! ### Pointers and registers -/

theorem reg_fallback_iff (hul : 32 ≤ ul) {w : ℕ} (x : BitVec w) :
    (fallback ul).reg x = builtin.reg x ↔ (w = 64 → Outer (x.setWidth 64)) := by
  rw [reg, reg]
  split_ifs with hw
  · have hback (y : BitVec 64) : (y.setWidth w).setWidth 64 = y := by
      rw [BitVec.setWidth_setWidth_of_le y hw.ge, BitVec.setWidth_eq]
    rw [forall_prop_of_true hw, ← fallback64_iff]
    refine ⟨fun h => ?_, fun h => congrArg (BitVec.setWidth w) h⟩
    rw [← hback ((fallback ul).swap64 _), h, hback]
    rfl
  · rw [fallback32_unsigned hul]
    exact iff_of_true rfl fun h => absurd h hw

theorem reg_builtin {n : ℕ} (hn : n = 4 ∨ n = 8) (x : BitVec (8 * n)) : builtin.reg x = swapVec n x := by
  rcases hn with rfl | rfl
  · show (swapVec 4 (x.setWidth (8 * 4))).setWidth (8 * 4) = swapVec 4 x
    rw [BitVec.setWidth_eq, BitVec.setWidth_eq]
  · show (swapVec 8 (x.setWidth (8 * 8))).setWidth (8 * 8) = swapVec 8 x
    rw [BitVec.setWidth_eq, BitVec.setWidth_eq]

/-- A register and its reversal. -/
theorem outer_reg_builtin {n : ℕ} (hn : n = 4 ∨ n = 8) {x : BitVec (8 * n)}
    (h : 8 * n = 64 → Outer (x.setWidth 64)) : 8 * n = 64 → Outer ((builtin.reg x).setWidth 64) := by
  intro hw
  obtain rfl : n = 8 := by omega
  rw [reg_builtin hn]
  have hx : x.setWidth 64 = x := BitVec.setWidth_eq x
  have hy : (swapVec 8 x).setWidth 64 = swapVec 8 x := BitVec.setWidth_eq _
  rw [hy]
  exact outer_swapVec (hx ▸ h hw)

end Byteswap

/-! ### Builds -/

/-- The branch that a build takes: that of GCC in C++, of the compilers of a Mac and of MSVC, or the last one, with
an `unsigned long` of `ul` bits. -/
inductive Endianswap where
  | builtin
  | fallback (ul : ℕ) (hul : 32 ≤ ul)

def Endianswap.macros : Endianswap → Byteswap
  | .builtin => .builtin
  | .fallback ul _ => .fallback ul

end Risu
