import Risu.Lib.ByteOrder
import Mathlib.Data.Nat.Log
import Mathlib.Tactic.Ring
import Mathlib.Algebra.Order.Ring.Int

/-!
# Perl's integers and character classes

What the generator uses of Perl: unsigned 64-bit integers with their shifts, and the classes of
characters in its patterns.  A file is read as bytes, so the classes are those of ASCII.

* `uv` — an integer as an operand of `&`, `|`, `~`, `<<` and `>>`;
* `shl`, `shr` — shifts, which go the other way for a negative count;
* `insn32`, `insn16` — a number as it is written out;
* `insn32Halves`, `bytesOfHalves` — the same as halfwords, and their bytes after `set_endian(1)`;
* `isSpace`, `isDigit`, `isAlpha`, `isWord` — `\s`, `[0-9]`, `[a-zA-Z]`, `\w`;
* `decimal`, `binary` — digits in a base; `numify` — the number a string stands for.
-/

namespace Risu.Gen

/-! ### Integers -/

/-- An integer as a bit pattern; values beyond 64 bits are cut off at the nearest one. -/
def uv (v : ℤ) : BitVec 64 :=
  if v < -2 ^ 63 then BitVec.intMin 64
  else if v < 2 ^ 64 then BitVec.ofInt 64 v
  else BitVec.allOnes 64

theorem uv_natCast {v : ℕ} (h : v < 2 ^ 64) : uv v = BitVec.ofNat 64 v := by
  unfold uv
  rw [if_neg (by omega), if_pos (by exact_mod_cast h), BitVec.ofInt_natCast]

theorem toNat_uv_natCast (v : ℕ) : (uv v).toNat = min v (2 ^ 64 - 1) := by
  by_cases h : v < 2 ^ 64
  · rw [uv_natCast h, BitVec.toNat_ofNat, Nat.mod_eq_of_lt h]
    omega
  · rw [uv, if_neg (by omega), if_neg (by omega), BitVec.toNat_allOnes]
    omega

theorem uv_eq_ofInt {v : ℤ} (h : -2 ^ 63 ≤ v) (h' : v < 2 ^ 64) : uv v = BitVec.ofInt 64 v := by
  rw [uv, if_neg (by omega), if_pos h']

theorem setWidth_uv {imm : ℤ} (h : -2 ^ 31 ≤ imm) (h' : imm < 2 ^ 32) :
    (uv imm).setWidth 32 = BitVec.ofInt 32 imm := by
  rw [uv_eq_ofInt (by omega) (by omega)]
  apply BitVec.eq_of_toNat_eq
  rw [BitVec.toNat_setWidth, BitVec.toNat_ofInt, BitVec.toNat_ofInt]
  omega

/-- The bits above those of a number repeat its sign. -/
theorem getLsbD_uv_high {v : ℤ} {k i : ℕ} (h : -2 ^ k ≤ v) (h' : v < 2 ^ k) (hk : k ≤ i)
    (hi : i < 64) : (uv v).getLsbD i = decide (v < 0) := by
  have hpow : (2 : ℤ) ^ k ≤ 2 ^ 63 := pow_le_pow_right₀ (by decide) (by omega)
  have hki : 2 ^ k ≤ 2 ^ i := Nat.pow_le_pow_right (by decide) hk
  rw [uv_eq_ofInt (by omega) (by omega)]
  cases v with
  | ofNat m =>
    have hm : m < 2 ^ k := by
      rw [Int.ofNat_eq_natCast] at h'
      exact_mod_cast h'
    rw [Int.ofNat_eq_natCast, BitVec.ofInt_natCast, BitVec.getLsbD_ofNat,
      Nat.testBit_lt_two_pow (by omega), Bool.and_false,
      decide_eq_false (Int.not_lt.mpr (Int.natCast_nonneg m))]
  | negSucc m =>
    have hm : m < 2 ^ k := by
      rw [Int.negSucc_eq] at h
      have : (m : ℤ) < 2 ^ k := by omega
      exact_mod_cast this
    rw [BitVec.ofInt_negSucc_eq_not_ofNat, BitVec.getLsbD_not, BitVec.getLsbD_ofNat,
      Nat.testBit_lt_two_pow (by omega), decide_eq_true hi, decide_eq_true (Int.negSucc_lt_zero m)]
    rfl

/-- `x << k` -/
def shl (x : BitVec 64) (k : ℤ) : BitVec 64 := if 0 ≤ k then x <<< k.toNat else x >>> (-k).toNat

/-- `x >> k` -/
def shr (x : BitVec 64) (k : ℤ) : BitVec 64 := if 0 ≤ k then x >>> k.toNat else x <<< (-k).toNat

@[simp] theorem shl_natCast (x : BitVec 64) (k : ℕ) : shl x k = x <<< k := by
  simp [shl]

@[simp] theorem shr_natCast (x : BitVec 64) (k : ℕ) : shr x k = x >>> k := by
  simp [shr]

/-- The low 32 bits of a number are written. -/
def insn32 (insn : BitVec 64) : BitVec 32 := insn.setWidth 32

def insn16 (insn : BitVec 64) : BitVec 16 := insn.setWidth 16

/-! ### Characters -/

def isSpace (c : Char) : Bool :=
  c == ' ' || c == '\t' || c == '\n' || c == '\r' || c == '\x0b' || c == '\x0c'

def isDigit (c : Char) : Bool := '0' ≤ c && c ≤ '9'

def isAlpha (c : Char) : Bool := 'a' ≤ c && c ≤ 'z' || 'A' ≤ c && c ≤ 'Z'

def isAlnum (c : Char) : Bool := isAlpha c || isDigit c

def isWord (c : Char) : Bool := isAlnum c || c == '_'

/-! ### Numbers -/

/-- The number with the given digits, the most significant first. -/
def digits (base : ℕ) (cs : List Char) : ℕ :=
  cs.foldl (fun v c => base * v + (c.toNat - '0'.toNat)) 0

def decimal (cs : List Char) : ℕ := digits 10 cs

/-- `oct("0b...")`, for at most 64 digits. -/
def binary (cs : List Char) : ℕ := digits 2 cs

/-- The nearest number with a mantissa of 53 bits, the even one of two. -/
def roundToDouble (v : ℕ) : ℕ :=
  let s := Nat.log2 v - 52
  let q := v / 2 ^ s
  let r := v % 2 ^ s
  if 2 ^ s < 2 * r ∨ 2 ^ s = 2 * r ∧ q % 2 = 1 then (q + 1) * 2 ^ s else q * 2 ^ s

/-- The number at the start of a string of word characters: digits, with an exponent or without.  A
number with an exponent is read as a double. -/
def numify (cs : List Char) : ℕ :=
  let v := decimal (cs.takeWhile isDigit)
  match cs.dropWhile isDigit with
  | c :: rest =>
    let exponent := rest.takeWhile isDigit
    if (c == 'e' || c == 'E') && !exponent.isEmpty then roundToDouble (v * 10 ^ decimal exponent)
    else v
  | [] => v

/-! ### Code in halfwords, big-endian -/

section halves

open Lib

abbrev Half := BitVec 16

/-- What `insn32` writes, as halfwords. -/
def insn32Halves (v : BitVec 64) : List Half :=
  [(insn32 v).extractLsb' 16 16, (insn32 v).extractLsb' 0 16]

def bytesOfHalves (hs : List Half) : List Byte := hs.flatMap fun h => bytesOf .big 2 h.toNat

theorem halves_append (w : BitVec 32) : w.extractLsb' 16 16 ++ w.extractLsb' 0 16 = w := by
  apply BitVec.eq_of_getLsbD_eq
  intro i hi
  rw [BitVec.getLsbD_append, BitVec.getLsbD_extractLsb', BitVec.getLsbD_extractLsb']
  by_cases h : i < 16
  · simp [h]
  · have hsum : 16 + (i - 16) = i := by omega
    simp [h, hsum, show i - 16 < 16 by omega]

theorem bytes_insn32Halves (v : BitVec 64) :
    bytesOfHalves (insn32Halves v) = bytesOf .big 4 (insn32 v).toNat := by
  have hhigh : ((insn32 v).extractLsb' 16 16).toNat = (insn32 v).toNat / 256 ^ 2 := by
    have hlt := (insn32 v).isLt
    rw [BitVec.extractLsb'_toNat, Nat.shiftRight_eq_div_pow]
    omega
  have hlow : ((insn32 v).extractLsb' 0 16).toNat = (insn32 v).toNat % 256 ^ 2 := by
    rw [BitVec.extractLsb'_toNat, Nat.shiftRight_zero]
    norm_num
  rw [show (4 : ℕ) = 2 + 2 from rfl, bytesOf_big_add, ← hhigh, ← hlow]
  simp [bytesOfHalves, insn32Halves]

end halves

end Risu.Gen
