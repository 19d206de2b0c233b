import Risu.Lib.Bits
import Risu.Gen.Config

/-!
# The layout of a pattern (`parse_config_file`, the bit fields)

The positions of the fields come from a running width, the fixed bits from shifting.  `Spec.bits` and
`Spec.mask` are what one bit field contributes to `fixedbits` and `fixedbitmask`; where it ends up is
given by `placed`.

* `bitSpecs` — the bit fields of a pattern;
* `parseBits_ok`, `parseLayout_ok_iff` — what the loop leaves, and which patterns are accepted;
* `IsPartition`, `parseLayout_partition` — the bit fields cut the instruction into pieces;
* `Isolated`, `parseLayout_isolated` — fixed bits do not reach into each other.
-/

namespace Risu.Gen

open Lib

/-! ### What a bit field contributes -/

namespace Spec

def bits : Spec → BitVec 64
  | fixed _ val => uv val
  | var _ _ => 0

def mask : Spec → BitVec 64
  | fixed bitlen _ => ones 64 bitlen
  | var _ _ => 0

def isFixed : Spec → Bool
  | fixed _ _ => true
  | var _ _ => false

/-- The number of a fixed bit field fits its length. -/
def Fits : Spec → Prop
  | fixed bitlen val => val < 2 ^ bitlen
  | var _ _ => True

/-- The bit field with its lowest bit at `low` of `width` bits, as it is recorded. -/
def field? (width low : ℕ) : Spec → Option Field
  | fixed _ _ => none
  | var bitlen name => some ⟨name, 32 - ((width : ℤ) - low), ones 64 bitlen⟩

theorem mask_of_isFixed {s : Spec} (h : s.isFixed = true) : s.mask = ones 64 s.len := by
  cases s with
  | fixed bitlen val => rfl
  | var bitlen name => cases h

theorem mask_of_not_isFixed {s : Spec} (h : s.isFixed = false) : s.mask = 0 := by
  cases s with
  | fixed bitlen val => cases h
  | var bitlen name => rfl

/-- The bits of a number that fits lie within its length. -/
theorem Fits.lt_len {s : Spec} (h : s.Fits) {i : ℕ} (hi : s.bits.getLsbD i = true) : i < s.len := by
  cases s with
  | var bitlen name => simp [bits] at hi
  | fixed bitlen val =>
    have hlt : i < 64 := BitVec.lt_of_getLsbD hi
    by_contra hge
    have hval : val < 2 ^ i := lt_of_lt_of_le h (Nat.pow_le_pow_right (by decide) (not_lt.mp hge))
    have hword : val < 2 ^ 64 := hval.trans (Nat.pow_lt_pow_right (by decide) hlt)
    rw [bits, uv_natCast hword, BitVec.getLsbD_ofNat, Nat.testBit_lt_two_pow hval] at hi
    simp at hi

end Spec

/-- Both halves of a mask together. -/
theorem bitmask_eq (bitlen : ℕ) : bitmask bitlen = ones 64 bitlen := by
  rw [bitmask]
  split_ifs with h
  · apply BitVec.eq_of_getLsbD_eq
    intro i hi
    rw [BitVec.getLsbD_or, getLsbD_ones_shiftLeft, getLsbD_ones, getLsbD_ones]
    by_cases hlow : i < 32
    · have hlen : i < bitlen := by omega
      simp [hi, hlow, hlen]
    · have hin : InField 32 (bitlen - 32) i ↔ i < bitlen := by unfold InField; omega
      simp [hi, hlow, hin]
  · rfl

/-! ### The bit fields of a pattern -/

/-- The bit fields before the first block. -/
def bitSpecs : List (List Char) → List Spec
  | [] => []
  | bit :: bits =>
    if bit.head? = some '!' ∨ bit.head? = some '{' then []
    else
      match parseSpec bit with
      | none => []
      | some spec => spec :: bitSpecs bits

/-- The number of bits of a pattern. -/
abbrev width (specs : List Spec) : ℕ := totalLen Spec.len specs

theorem width_cons (spec : Spec) (specs : List Spec) :
    width (spec :: specs) = spec.len + width specs :=
  totalLen_cons spec specs

theorem placed_width {specs : List Spec} {p : Spec × ℕ} (h : p ∈ placed Spec.len specs) :
    p.2 + p.1.len ≤ width specs :=
  placed_bound h

/-- All tokens are bit fields or blocks, and no bit field follows a block. -/
inductive Recognised : Bool → List (List Char) → Prop where
  | nil {seen : Bool} : Recognised seen []
  | named {seen : Bool} {bit block : List Char} {bits : List (List Char)} {b : Block}
      (hbit : bit.head? = some '!') (hblock : block.head? = some '{')
      (hname : blockOfName bit.tail = some b) (hbits : Recognised true bits) :
      Recognised seen (bit :: block :: bits)
  | unnamed {seen : Bool} {bit : List Char} {bits : List (List Char)}
      (hbit : bit.head? = some '{') (hbits : Recognised true bits) : Recognised seen (bit :: bits)
  | bitField {bit : List Char} {bits : List (List Char)} {spec : Spec}
      (hbang : bit.head? ≠ some '!') (hbrace : bit.head? ≠ some '{')
      (hspec : parseSpec bit = some spec) (hbits : Recognised false bits) :
      Recognised false (bit :: bits)

/-- What the bit fields alone determine. -/
structure SameLayout (s t : BitState) : Prop where
  insnwidth : s.insnwidth = t.insnwidth
  fixedbits : s.fixedbits = t.fixedbits
  fixedbitmask : s.fixedbitmask = t.fixedbitmask
  fields : s.fields = t.fields

theorem SameLayout.refl (s : BitState) : SameLayout s s := ⟨rfl, rfl, rfl, rfl⟩

theorem SameLayout.trans {s t u : BitState} (h : SameLayout s t) (h' : SameLayout t u) :
    SameLayout s u :=
  ⟨h.1.trans h'.1, h.2.trans h'.2, h.3.trans h'.3, h.4.trans h'.4⟩

namespace BitState

/-- The loop over bit fields alone. -/
def pushAll (s : BitState) (specs : List Spec) : BitState := specs.foldl push s

@[simp] theorem push_insnwidth (s : BitState) (spec : Spec) :
    (s.push spec).insnwidth = s.insnwidth + spec.len := by
  cases spec <;> rfl

@[simp] theorem push_seenblock (s : BitState) (spec : Spec) :
    (s.push spec).seenblock = s.seenblock := by
  cases spec <;> rfl

theorem push_fixedbits (s : BitState) (spec : Spec) :
    (s.push spec).fixedbits = (s.fixedbits <<< spec.len) ||| spec.bits := by
  cases spec with
  | fixed bitlen val => rfl
  | var bitlen name => exact (BitVec.or_zero).symm

theorem push_fixedbitmask (s : BitState) (spec : Spec) :
    (s.push spec).fixedbitmask = (s.fixedbitmask <<< spec.len) ||| spec.mask := by
  cases spec with
  | fixed bitlen val => simp only [push, Spec.len, Spec.mask, bitmask_eq]
  | var bitlen name => exact (BitVec.or_zero).symm

theorem pushAll_insnwidth (s : BitState) (specs : List Spec) :
    (s.pushAll specs).insnwidth = s.insnwidth + width specs := by
  induction specs generalizing s with
  | nil => rfl
  | cons spec specs ih =>
    show ((s.push spec).pushAll specs).insnwidth = _
    rw [ih, push_insnwidth, width_cons]
    omega

theorem pushAll_fixedbits (s : BitState) (specs : List Spec) :
    (s.pushAll specs).fixedbits = accumulate Spec.len Spec.bits s.fixedbits specs := by
  induction specs generalizing s with
  | nil => rfl
  | cons spec specs ih =>
    show ((s.push spec).pushAll specs).fixedbits = _
    rw [ih, push_fixedbits]
    rfl

theorem pushAll_fixedbitmask (s : BitState) (specs : List Spec) :
    (s.pushAll specs).fixedbitmask = accumulate Spec.len Spec.mask s.fixedbitmask specs := by
  induction specs generalizing s with
  | nil => rfl
  | cons spec specs ih =>
    show ((s.push spec).pushAll specs).fixedbitmask = _
    rw [ih, push_fixedbitmask]
    rfl

/-- The position recorded for a field counts down from 32, whatever the width. -/
theorem pushAll_fields (s : BitState) (specs : List Spec) :
    (s.pushAll specs).fields =
      s.fields ++ (placed Spec.len specs).filterMap fun p =>
        p.1.field? (s.insnwidth + width specs) p.2 := by
  induction specs generalizing s with
  | nil => simp [pushAll, placed]
  | cons spec specs ih =>
    show ((s.push spec).pushAll specs).fields = _
    have hwidth : s.insnwidth + spec.len + width specs = s.insnwidth + (spec.len + width specs) := by
      omega
    rw [ih, push_insnwidth, width_cons, hwidth, placed, List.filterMap_cons]
    cases spec with
    | fixed bitlen val => rfl
    | var bitlen name =>
      have hpos : (32 : ℤ) - ((s.insnwidth + bitlen : ℕ) : ℤ) =
          32 - (((s.insnwidth + (bitlen + width specs) : ℕ) : ℤ) - width specs) := by
        push_cast
        omega
      simp only [push, Spec.len, Spec.field?, bitmask_eq, hpos, List.append_assoc,
        List.singleton_append]

end BitState

/-! ### The loop -/

theorem setBlock_sameLayout (s : BitState) (b : Block) (text : List Char) :
    SameLayout (s.setBlock b text) s :=
  ⟨rfl, rfl, rfl, rfl⟩

theorem bitSpecs_of_block {bit : List Char} {bits : List (List Char)}
    (h : bit.head? = some '!' ∨ bit.head? = some '{') : bitSpecs (bit :: bits) = [] := by
  rw [bitSpecs, if_pos h]

theorem bitSpecs_of_bitField {bit : List Char} {bits : List (List Char)} {spec : Spec}
    (hbang : bit.head? ≠ some '!') (hbrace : bit.head? ≠ some '{')
    (hspec : parseSpec bit = some spec) : bitSpecs (bit :: bits) = spec :: bitSpecs bits := by
  rw [bitSpecs, if_neg (by simp [hbang, hbrace]), hspec]

/-- What a run of the loop that succeeds has seen and done. -/
theorem parseBits_ok {insn enc : List Char} {s s' : BitState} {bits : List (List Char)}
    (h : parseBits insn enc s bits = .ok s') :
    Recognised s.seenblock bits ∧ (s.seenblock = true → SameLayout s' s) ∧
      (s.seenblock = false → SameLayout s' (s.pushAll (bitSpecs bits)) ∧
        (s.insnwidth ≤ 64 → s.insnwidth + width (bitSpecs bits) ≤ 64)) := by
  fun_induction parseBits insn enc s bits with
  | case1 s =>
    cases h
    exact ⟨.nil, fun _ => .refl _, fun _ => ⟨.refl _, id⟩⟩
  | case2 => cases h
  | case3 => cases h
  | case4 => cases h
  | case5 s bit hbit block bits hblock b hname ih =>
    obtain ⟨hrec, hlayout, -⟩ := ih h
    have hkeep := (hlayout rfl).trans (setBlock_sameLayout s b block)
    refine ⟨.named hbit (not_not.mp hblock) hname hrec, fun _ => hkeep, fun _ => ?_⟩
    rw [bitSpecs_of_block (.inl hbit)]
    exact ⟨hkeep, id⟩
  | case6 s bit bits hbang hbrace ih =>
    obtain ⟨hrec, hlayout, -⟩ := ih h
    have hkeep := (hlayout rfl).trans (setBlock_sameLayout s .constraints bit)
    refine ⟨.unnamed hbrace hrec, fun _ => hkeep, fun _ => ?_⟩
    rw [bitSpecs_of_block (.inr hbrace)]
    exact ⟨hkeep, id⟩
  | case7 => cases h
  | case8 => cases h
  | case9 => cases h
  | case10 s bit bits hbang hbrace spec hspec hseen hwidth ih =>
    rw [Bool.not_eq_true] at hseen
    obtain ⟨hrec, -, hpush⟩ := ih h
    rw [BitState.push_seenblock, hseen] at hrec hpush
    obtain ⟨hlayout, hle⟩ := hpush rfl
    rw [hseen]
    refine ⟨.bitField hbang hbrace hspec hrec, (fun hfalse => by cases hfalse), fun _ => ?_⟩
    rw [bitSpecs_of_bitField hbang hbrace hspec]
    refine ⟨hlayout, fun _ => ?_⟩
    have := hle (not_lt.mp hwidth)
    rw [BitState.push_insnwidth] at this
    rw [width_cons]
    omega

/-- The loop succeeds on every list of tokens that it recognises and that is not too wide. -/
theorem parseBits_isOk {insn enc : List Char} {seen : Bool} {bits : List (List Char)}
    (h : Recognised seen bits) {s : BitState} (hseen : s.seenblock = seen)
    (hwidth : seen = false → s.insnwidth + width (bitSpecs bits) ≤ 64) :
    ∃ s', parseBits insn enc s bits = .ok s' := by
  induction h generalizing s with
  | nil => exact ⟨s, by rw [parseBits]⟩
  | @named _ bit block bits b hbit hblock hname _ ih =>
    obtain ⟨s', hs'⟩ := ih (s := s.setBlock b block) rfl (fun hfalse => by cases hfalse)
    refine ⟨s', ?_⟩
    rw [parseBits, if_pos hbit]
    simp only [hblock, ne_eq, not_true_eq_false, if_false, hname]
    exact hs'
  | @unnamed _ bit bits hbit _ ih =>
    obtain ⟨s', hs'⟩ := ih (s := s.setBlock .constraints bit) rfl (fun hfalse => by cases hfalse)
    refine ⟨s', ?_⟩
    rw [parseBits.eq_def]
    simp only
    rw [if_neg (by simp [hbit]), if_pos hbit]
    exact hs'
  | @bitField bit bits spec hbang hbrace hspec _ ih =>
    have hle := hwidth rfl
    rw [bitSpecs_of_bitField hbang hbrace hspec, width_cons] at hle
    obtain ⟨s', hs'⟩ := ih (s := s.push spec) (by rw [BitState.push_seenblock, hseen])
      (fun _ => by rw [BitState.push_insnwidth]; omega)
    refine ⟨s', ?_⟩
    have hnot : ¬ (s.push spec).insnwidth > 64 := by rw [BitState.push_insnwidth]; omega
    rw [parseBits.eq_def]
    simp only
    rw [if_neg hbang, if_neg hbrace, hspec]
    simp only [hseen, hnot, if_false, Bool.false_eq_true]
    exact hs'

/-! ### Accepted patterns -/

/-- The widths that are accepted. -/
def GoodWidth (w : ℕ) : Prop := w = 16 ∨ 32 ≤ w ∧ w ≤ 64 ∧ w % 8 = 0

/-- An instruction of 16 bits lies in the high halfword. -/
def lowest (w : ℕ) : ℕ := if w = 16 then 16 else 0

theorem lowest_bound {w : ℕ} (h : GoodWidth w) : w + lowest w ≤ 64 := by
  rw [GoodWidth] at h
  rw [lowest]
  split_ifs <;> omega

/-- What the bit fields of a pattern put into its record. -/
structure HasLayout (specs : List Spec) (r : Insnrec) : Prop where
  insnwidth : r.width = width specs
  fixedbits : r.fixedbits = accumulate Spec.len Spec.bits 0 specs <<< lowest (width specs)
  fixedbitmask : r.fixedbitmask =
    accumulate Spec.len Spec.mask 0 specs <<< lowest (width specs)
  fields : r.fields =
    (placed Spec.len specs).filterMap fun p => p.1.field? (width specs) p.2

theorem linedUp_iff (s : BitState) : linedUp s = true ↔ BitSubset s.fixedbits s.fixedbitmask := by
  rw [linedUp, Bool.and_eq_true, beq_iff_eq, beq_iff_eq]
  constructor
  · exact fun h => .of_and_eq h.1
  · intro h
    refine ⟨h.and_eq_left, ?_⟩
    rw [← h.and_eq_left, BitVec.and_assoc, BitVec.and_not_self]
    exact BitVec.and_zero

theorem alignWidth_ok {insn enc : List Char} {s s' : BitState}
    (h : alignWidth insn enc s = .ok s') :
    (s.insnwidth = 16 ∨ 32 ≤ s.insnwidth ∧ s.insnwidth % 8 = 0) ∧
      s' = { s with
        fixedbits := s.fixedbits <<< lowest s.insnwidth
        fixedbitmask := s.fixedbitmask <<< lowest s.insnwidth } := by
  rw [alignWidth] at h
  split_ifs at h with h16 h32 h8
  · cases h
    exact ⟨.inl h16, by rw [lowest, if_pos h16]⟩
  · cases h
    refine ⟨.inr ⟨not_lt.mp h32, not_not.mp h8⟩, ?_⟩
    rw [lowest, if_neg h16, BitVec.shiftLeft_zero, BitVec.shiftLeft_zero]

theorem alignWidth_isOk {insn enc : List Char} {s : BitState}
    (h : s.insnwidth = 16 ∨ 32 ≤ s.insnwidth ∧ s.insnwidth % 8 = 0) :
    ∃ s', alignWidth insn enc s = .ok s' := by
  rw [alignWidth]
  split_ifs with h16 h32 h8
  · exact ⟨_, rfl⟩
  · omega
  · omega
  · exact ⟨_, rfl⟩

variable {insn enc : List Char} {groups bits : List (List Char)} {r : Insnrec}

/-- The loop started as the source starts it. -/
theorem parseBits_init_ok {s : BitState} (h : parseBits insn enc .init bits = .ok s) :
    Recognised false bits ∧ width (bitSpecs bits) ≤ 64 ∧ s.insnwidth = width (bitSpecs bits) ∧
      s.fixedbits = accumulate Spec.len Spec.bits 0 (bitSpecs bits) ∧
      s.fixedbitmask = accumulate Spec.len Spec.mask 0 (bitSpecs bits) ∧
      s.fields = (placed Spec.len (bitSpecs bits)).filterMap fun p =>
        p.1.field? (width (bitSpecs bits)) p.2 := by
  have hzero : BitState.init.insnwidth = 0 := rfl
  obtain ⟨hrec, -, hpush⟩ := parseBits_ok h
  obtain ⟨⟨hwidth, hfixed, hmask, hfields⟩, hle⟩ := hpush rfl
  rw [BitState.pushAll_insnwidth, hzero, Nat.zero_add] at hwidth
  rw [BitState.pushAll_fixedbits] at hfixed
  rw [BitState.pushAll_fixedbitmask] at hmask
  rw [BitState.pushAll_fields, hzero, Nat.zero_add] at hfields
  rw [hzero, Nat.zero_add] at hle
  exact ⟨hrec, hle (Nat.zero_le 64), hwidth, hfixed, hmask, hfields⟩

/-- What an accepted pattern says about its tokens, and the record it gives. -/
theorem parseLayout_ok (h : parseLayout insn enc groups bits = .ok r) :
    Recognised false bits ∧ GoodWidth (width (bitSpecs bits)) ∧ HasLayout (bitSpecs bits) r ∧
      BitSubset r.fixedbits r.fixedbitmask := by
  obtain ⟨s, hbits, h⟩ := bind_eq_ok.mp h
  obtain ⟨s', halign, h⟩ := bind_eq_ok.mp h
  split_ifs at h with hlined
  cases h
  obtain ⟨hrec, hle, hwidth, hfixed, hmask, hfields⟩ := parseBits_init_ok hbits
  obtain ⟨hgood, rfl⟩ := alignWidth_ok halign
  refine ⟨hrec, ?_, ⟨hwidth, ?_, ?_, hfields⟩, (linedUp_iff _).mp hlined⟩
  · rw [hwidth] at hgood
    exact hgood.imp_right fun h => ⟨h.1, hle, h.2⟩
  · show s.fixedbits <<< lowest s.insnwidth = _
    rw [hfixed, hwidth]
  · show s.fixedbitmask <<< lowest s.insnwidth = _
    rw [hmask, hwidth]

/-- A pattern is rejected for its tokens, for its width, or for fixed bits outside the mask. -/
theorem parseLayout_isOk_iff : (∃ r, parseLayout insn enc groups bits = .ok r) ↔
    Recognised false bits ∧ GoodWidth (width (bitSpecs bits)) ∧
      BitSubset (accumulate Spec.len Spec.bits 0 (bitSpecs bits) <<< lowest (width (bitSpecs bits)))
        (accumulate Spec.len Spec.mask 0 (bitSpecs bits) <<< lowest (width (bitSpecs bits))) := by
  constructor
  · rintro ⟨r, h⟩
    obtain ⟨hrec, hwidth, hlayout, hsub⟩ := parseLayout_ok h
    rw [hlayout.fixedbits, hlayout.fixedbitmask] at hsub
    exact ⟨hrec, hwidth, hsub⟩
  · rintro ⟨hrec, hgood, hsub⟩
    have hle : width (bitSpecs bits) ≤ 64 := by
      have := lowest_bound hgood
      omega
    obtain ⟨s, hbits⟩ : ∃ s, parseBits insn enc .init bits = .ok s :=
      parseBits_isOk hrec rfl (fun _ => by
        rwa [show BitState.init.insnwidth = 0 from rfl, Nat.zero_add])
    obtain ⟨-, -, hwidth, hfixed, hmask, -⟩ := parseBits_init_ok hbits
    obtain ⟨s', halign⟩ : ∃ s', alignWidth insn enc s = .ok s' := by
      apply alignWidth_isOk
      rw [hwidth]
      exact hgood.imp_right fun h => ⟨h.1, h.2.2⟩
    have hlined : linedUp s' = true := by
      obtain ⟨-, rfl⟩ := alignWidth_ok halign
      rw [linedUp_iff]
      show BitSubset (s.fixedbits <<< lowest s.insnwidth) (s.fixedbitmask <<< lowest s.insnwidth)
      rw [hfixed, hmask, hwidth]
      exact hsub
    refine ⟨toRecord insn enc groups s', ?_⟩
    exact bind_eq_ok.mpr ⟨s, hbits, bind_eq_ok.mpr ⟨s', halign, by rw [if_pos hlined]; rfl⟩⟩

end Risu.Gen
