import Risu.Gen.Layout

/-!
# Bit fields as pieces of the instruction (`parse_config_file`)

* `IsPartition`, `parseEntry_partition_iff` — the pieces of the bit fields cut the instruction up, for
  patterns of 16 and 32 bits.  A wider pattern records its fields as if it ended at bit 32, and is cut
  up only if it has no fields;
* `Isolated`, `parseLayout_isolated_iff` — a fixed bit field determines its own bits and no others.  A
  number that does not fit is noticed only where it sets a bit outside all fixed bit fields.
-/

namespace Risu.Gen

open Lib

/-! ### Bits of a record -/

section bits

variable {specs : List Spec} {r : Insnrec}

theorem getLsbD_mask_iff (s : Spec) (i : ℕ) :
    s.mask.getLsbD i = true ↔ s.isFixed = true ∧ i < 64 ∧ i < s.len := by
  cases hs : s.isFixed with
  | true => simp [Spec.mask_of_isFixed hs]
  | false => simp [Spec.mask_of_not_isFixed hs]

/-- The accumulated masks are those of the fixed bit fields, each in its place. -/
theorem getLsbD_fixedMask (hw : GoodWidth (width specs)) (i : ℕ) :
    (accumulate Spec.len Spec.mask 0 specs <<< lowest (width specs)).getLsbD i = true ↔
      ∃ p ∈ placed Spec.len specs,
        p.1.isFixed = true ∧ InField (p.2 + lowest (width specs)) p.1.len i := by
  have hbound := lowest_bound hw
  rw [BitVec.getLsbD_shiftLeft]
  simp only [Bool.and_eq_true, decide_eq_true_eq, Bool.not_eq_true', decide_eq_false_iff_not]
  constructor
  · rintro ⟨⟨hi, hlow⟩, hbit⟩
    rw [getLsbD_accumulate _ _ _ (by omega)] at hbit
    rcases hbit with ⟨-, hzero⟩ | ⟨p, hp, hle, hbit⟩
    · simp at hzero
    · obtain ⟨hfix, -, hlen⟩ := (getLsbD_mask_iff p.1 _).mp hbit
      exact ⟨p, hp, hfix, by omega, by omega⟩
  · rintro ⟨p, hp, hfix, hge, hlt⟩
    have hp' := placed_width hp
    refine ⟨⟨by omega, by omega⟩, ?_⟩
    rw [getLsbD_accumulate _ _ _ (by omega)]
    refine .inr ⟨p, hp, by omega, (getLsbD_mask_iff p.1 _).mpr ⟨hfix, by omega, by omega⟩⟩

/-- The accumulated numbers start where their bit fields do, and may reach beyond them. -/
theorem getLsbD_fixedBits (specs : List Spec) (i : ℕ) :
    (accumulate Spec.len Spec.bits 0 specs <<< lowest (width specs)).getLsbD i = true ↔
      i < 64 ∧ ∃ p ∈ placed Spec.len specs, p.2 + lowest (width specs) ≤ i ∧
        p.1.bits.getLsbD (i - (p.2 + lowest (width specs))) = true := by
  rw [BitVec.getLsbD_shiftLeft]
  simp only [Bool.and_eq_true, decide_eq_true_eq, Bool.not_eq_true', decide_eq_false_iff_not]
  constructor
  · rintro ⟨⟨hi, hlow⟩, hbit⟩
    rw [getLsbD_accumulate _ _ _ (by omega)] at hbit
    rcases hbit with ⟨-, hzero⟩ | ⟨p, hp, hle, hbit⟩
    · simp at hzero
    · refine ⟨hi, p, hp, by omega, ?_⟩
      rwa [show i - (p.2 + lowest (width specs)) = i - lowest (width specs) - p.2 by omega]
  · rintro ⟨hi, p, hp, hle, hbit⟩
    refine ⟨⟨hi, by omega⟩, ?_⟩
    rw [getLsbD_accumulate _ _ _ (by omega)]
    refine .inr ⟨p, hp, by omega, ?_⟩
    rwa [show i - lowest (width specs) - p.2 = i - (p.2 + lowest (width specs)) by omega]

theorem HasLayout.getLsbD_fixedbitmask (h : HasLayout specs r) (hw : GoodWidth (width specs))
    (i : ℕ) : r.fixedbitmask.getLsbD i = true ↔ ∃ p ∈ placed Spec.len specs,
      p.1.isFixed = true ∧ InField (p.2 + lowest (width specs)) p.1.len i := by
  rw [h.fixedbitmask, getLsbD_fixedMask hw]

/-- A mask moved by its recorded position stays below where the field is recorded to end. -/
theorem shl_ones_bound {len i : ℕ} {pos : ℤ} (h : (shl (ones 64 len) pos).getLsbD i = true) :
    0 < len ∧ (i : ℤ) < pos + len := by
  rw [shl] at h
  split_ifs at h with hpos
  · rw [getLsbD_ones_shiftLeft, Bool.and_eq_true, decide_eq_true_eq, decide_eq_true_eq] at h
    obtain ⟨-, hge, hlt⟩ := h
    omega
  · rw [BitVec.getLsbD_ushiftRight, getLsbD_ones, Bool.and_eq_true, decide_eq_true_eq,
      decide_eq_true_eq] at h
    omega

end bits

/-! ### The pieces of an instruction -/

/-- One piece for each bit field.  The piece of a variable field is its mask moved to the recorded
position, those of the fixed ones together are `fixedbitmask`.  Each has as many bits as the field,
they follow each other from high to low (and so have no bit in common), and together they are the
whole instruction. -/
structure IsPartition (specs : List Spec) (r : Insnrec) (pieces : List (Spec × BitVec 64)) :
    Prop where
  tokens : pieces.map Prod.fst = specs
  fields : (pieces.filter fun p => !p.1.isFixed).map Prod.snd =
    r.fields.map fun f => shl f.mask f.pos
  fixed : ∀ i, r.fixedbitmask.getLsbD i = true ↔
    ∃ p ∈ pieces, p.1.isFixed = true ∧ p.2.getLsbD i = true
  len : ∀ p ∈ pieces, bitCount p.2 = p.1.len
  order : pieces.Pairwise fun p q => ∀ i j, p.2.getLsbD i = true → q.2.getLsbD j = true → j < i
  union : ∀ i, (∃ p ∈ pieces, p.2.getLsbD i = true) ↔
    InField (lowest (width specs)) (width specs) i

/-- Where the pieces should be. -/
def pieces (specs : List Spec) : List (Spec × BitVec 64) :=
  (placed Spec.len specs).map fun p =>
    (p.1, ones 64 p.1.len <<< (p.2 + lowest (width specs)))

theorem map_fst_placed (specs : List Spec) : (placed Spec.len specs).map Prod.fst = specs := by
  induction specs with
  | nil => rfl
  | cons s specs ih => rw [placed, List.map_cons, ih]

/-- The recorded masks are the pieces, where the recorded positions are right. -/
theorem fieldPieces_eq {w k : ℕ} {L : List (Spec × ℕ)}
    (h : ∀ p ∈ L, p.1.isFixed = false → p.1.len = 0 ∨ 32 - ((w : ℤ) - p.2) = (p.2 + k : ℕ)) :
    ((L.map fun p => (p.1, ones 64 p.1.len <<< (p.2 + k))).filter fun p => !p.1.isFixed).map
        Prod.snd =
      (L.filterMap fun p => p.1.field? w p.2).map fun f => shl f.mask f.pos := by
  induction L with
  | nil => rfl
  | cons p L ih =>
    have hL := ih fun q hq => h q (List.mem_cons_of_mem p hq)
    obtain ⟨spec, low⟩ := p
    cases spec with
    | fixed bitlen val => exact hL
    | var bitlen name =>
      have hpiece : ones 64 bitlen <<< (low + k) = shl (ones 64 bitlen) (32 - ((w : ℤ) - low)) := by
        rcases h _ List.mem_cons_self rfl with hzero | hpos
        · have hz : bitlen = 0 := hzero
          rw [hz, ones_zero]
          rw [shl]
          split_ifs <;> simp
        · have hp : 32 - ((w : ℤ) - low) = (low + k : ℕ) := hpos
          rw [hp, shl_natCast]
      exact congrArg₂ List.cons hpiece hL

theorem getLsbD_piece {specs : List Spec} (hw : GoodWidth (width specs)) {p : Spec × ℕ}
    (hp : p ∈ placed Spec.len specs) (i : ℕ) :
    (ones 64 p.1.len <<< (p.2 + lowest (width specs))).getLsbD i = true ↔
      InField (p.2 + lowest (width specs)) p.1.len i := by
  have hbound := lowest_bound hw
  have hp' := placed_width hp
  rw [getLsbD_ones_shiftLeft, Bool.and_eq_true, decide_eq_true_eq, decide_eq_true_eq]
  refine ⟨And.right, fun h => ⟨?_, h⟩⟩
  have := h.2
  omega

theorem HasLayout.isPartition {specs : List Spec} {r : Insnrec} (h : HasLayout specs r)
    (hw : GoodWidth (width specs))
    (hwidth : width specs = 16 ∨ width specs = 32 ∨ ∀ s ∈ specs, s.isFixed = false → s.len = 0) :
    IsPartition specs r (pieces specs) where
  tokens := by
    rw [pieces, List.map_map]
    exact map_fst_placed specs
  fields := by
    rw [h.fields]
    apply fieldPieces_eq
    intro p hp hvar
    have hlow : ∀ w, lowest w = if w = 16 then 16 else 0 := fun _ => rfl
    rcases hwidth with h16 | h32 | hnone
    · refine .inr ?_
      rw [hlow, if_pos h16, h16]
      push_cast
      omega
    · refine .inr ?_
      rw [hlow, if_neg (by omega), h32]
      push_cast
      omega
    · have hmem : p.1 ∈ specs := by
        rw [← map_fst_placed specs]
        exact List.mem_map_of_mem hp
      exact .inl (hnone p.1 hmem hvar)
  fixed := by
    intro i
    rw [h.getLsbD_fixedbitmask hw, pieces]
    simp only [List.mem_map, exists_exists_and_eq_and]
    refine exists_congr fun p => and_congr_right fun hp => ?_
    rw [getLsbD_piece hw hp]
  len := by
    intro q hq
    obtain ⟨p, hp, rfl⟩ := List.mem_map.mp hq
    have hbound := lowest_bound hw
    have hp' := placed_width hp
    exact bitCount_ones_shiftLeft (by omega)
  order := by
    rw [pieces, List.pairwise_map]
    refine (placed_pairwise specs).imp_of_mem ?_
    intro p q hp hq hle i j hi hj
    obtain ⟨hi, -⟩ := (getLsbD_piece hw hp i).mp hi
    obtain ⟨-, hj⟩ := (getLsbD_piece hw hq j).mp hj
    omega
  union := by
    intro i
    rw [pieces]
    simp only [List.mem_map, exists_exists_and_eq_and]
    constructor
    · rintro ⟨p, hp, hi⟩
      obtain ⟨hge, hlt⟩ := (getLsbD_piece hw hp i).mp hi
      have hp' := placed_width hp
      exact ⟨by omega, by omega⟩
    · rintro ⟨hge, hlt⟩
      obtain ⟨p, hp, hin, hout⟩ := placed_cover
        (show i - lowest (width specs) < width specs by omega)
      exact ⟨p, hp, (getLsbD_piece hw hp i).mpr ⟨by omega, by omega⟩⟩

/-- The highest variable field. -/
theorem exists_highest_field {specs : List Spec}
    (h : ∃ s ∈ specs, s.isFixed = false ∧ 0 < s.len) :
    ∃ p ∈ placed Spec.len specs, p.1.isFixed = false ∧ 0 < p.1.len ∧
      ∀ q ∈ placed Spec.len specs, q.1.isFixed = false → 0 < q.1.len →
        q.2 + q.1.len ≤ p.2 + p.1.len := by
  induction specs with
  | nil => simp at h
  | cons s specs ih =>
    by_cases hs : s.isFixed = false ∧ 0 < s.len
    · refine ⟨_, List.mem_cons_self, hs.1, hs.2, fun q hq _ _ => ?_⟩
      have := placed_bound hq
      rw [totalLen_cons] at this
      show q.2 + q.1.len ≤ totalLen Spec.len specs + s.len
      omega
    · obtain ⟨p, hp, hvar, hpos, hmax⟩ := ih (by
        obtain ⟨t, ht, hvar, hpos⟩ := h
        rcases List.mem_cons.mp ht with rfl | ht
        · exact absurd ⟨hvar, hpos⟩ hs
        · exact ⟨t, ht, hvar, hpos⟩)
      refine ⟨p, List.mem_cons_of_mem _ hp, hvar, hpos, fun q hq hqvar hqpos => ?_⟩
      rcases List.mem_cons.mp hq with rfl | hq
      · exact absurd ⟨hqvar, hqpos⟩ hs
      · exact hmax q hq hqvar hqpos

/-- The highest bit of the highest field of a wider pattern belongs to no piece. -/
theorem HasLayout.not_isPartition {specs : List Spec} {r : Insnrec} (h : HasLayout specs r)
    (hw : GoodWidth (width specs)) (h16 : width specs ≠ 16) (h32 : width specs ≠ 32)
    (hvar : ∃ s ∈ specs, s.isFixed = false ∧ 0 < s.len) (L : List (Spec × BitVec 64)) :
    ¬ IsPartition specs r L := by
  intro hL
  have hwide : 40 ≤ width specs := by
    rw [GoodWidth] at hw
    omega
  have hlow : lowest (width specs) = 0 := if_neg h16
  obtain ⟨p, hp, hpvar, hpos, hmax⟩ := exists_highest_field hvar
  have hp' := placed_width hp
  obtain ⟨q, hq, hbit⟩ := (hL.union (p.2 + p.1.len - 1)).mpr ⟨by omega, by omega⟩
  cases hfix : q.1.isFixed with
  | true =>
    obtain ⟨p', hmem, hfix', hin⟩ := (h.getLsbD_fixedbitmask hw _).mp
      ((hL.fixed _).mpr ⟨q, hq, hfix, hbit⟩)
    rw [hlow, Nat.add_zero] at hin
    have hsame : p' = p := placed_unique hmem hp hin ⟨by omega, by omega⟩
    rw [hsame, hpvar] at hfix'
    cases hfix'
  | false =>
    have hmem : q.2 ∈ r.fields.map fun f => shl f.mask f.pos := by
      rw [← hL.fields]
      exact List.mem_map_of_mem (List.mem_filter.mpr ⟨hq, by simp [hfix]⟩)
    obtain ⟨f, hf, hfq⟩ := List.mem_map.mp hmem
    rw [h.fields, List.mem_filterMap] at hf
    obtain ⟨⟨spec, low⟩, hspec, hfield⟩ := hf
    cases spec with
    | fixed bitlen val => cases hfield
    | var bitlen name =>
      cases hfield
      rw [← hfq] at hbit
      obtain ⟨hlen, hlt⟩ := shl_ones_bound hbit
      have hle : low + bitlen ≤ p.2 + p.1.len := hmax _ hspec rfl hlen
      simp only at hlt
      omega

/-- **The bit fields of a pattern cut the instruction up** exactly if the pattern has 16 or 32 bits,
or has no variable field. -/
theorem parseEntry_partition_iff {c c' : Config} {insn enc : List Char} {bits : List (List Char)}
    {r : Insnrec} (h : parseEntry c (insn :: enc :: bits) = .ok c')
    (hr : c'.details = c.details ++ [r]) :
    (∃ L, IsPartition (bitSpecs bits) r L) ↔
      width (bitSpecs bits) = 16 ∨ width (bitSpecs bits) = 32 ∨
        ∀ s ∈ bitSpecs bits, s.isFixed = false → s.len = 0 := by
  obtain ⟨-, hw, hlayout, -⟩ := parseLayout_ok (parseEntry_record h hr)
  constructor
  · rintro ⟨L, hL⟩
    by_contra hnot
    push Not at hnot
    obtain ⟨h16, h32, s, hs, hvar, hlen⟩ := hnot
    exact hlayout.not_isPartition hw h16 h32 ⟨s, hs, hvar, Nat.pos_of_ne_zero hlen⟩ L hL
  · exact fun hwidth => ⟨_, hlayout.isPartition hw hwidth⟩

/-- The tokens after the name and the encoding of `ADD PPC64LE`. -/
def addBits : List (List Char) := tokenise "011111 rt:5 ra:5 rb:5 01000010100".toList

/-- The tokens after the name and the encoding of `PADDI PPC64LE`, which has 64 bits. -/
def paddiBits : List (List Char) := tokenise "00000110000 a:1 00 b:18 001110 c:26".toList

theorem parseEntry_partition_add :
    ∃ c r, parseEntry .init ("ADD".toList :: "PPC64LE".toList :: addBits) = .ok c ∧
      c.details = [r] ∧ ∃ L, IsPartition (bitSpecs addBits) r L := by
  obtain ⟨c, r, hc, hr⟩ : ∃ c r,
      parseEntry .init ("ADD".toList :: "PPC64LE".toList :: addBits) = .ok c ∧ c.details = [r] :=
    exists_record (by decide +kernel)
  have hwidth : width (bitSpecs addBits) = 32 := by decide +kernel
  exact ⟨c, r, hc, hr, (parseEntry_partition_iff hc hr).mpr (.inr (.inl hwidth))⟩

/-- The fixed bits of `PADDI` fit, and its fields are out of place. -/
theorem paddi_not_partition :
    ∃ c r, parseEntry .init ("PADDI".toList :: "PPC64LE".toList :: paddiBits) = .ok c ∧
      c.details = [r] ∧ (∀ s ∈ bitSpecs paddiBits, s.Fits) ∧
      ¬ ∃ L, IsPartition (bitSpecs paddiBits) r L := by
  obtain ⟨c, r, hc, hr⟩ : ∃ c r,
      parseEntry .init ("PADDI".toList :: "PPC64LE".toList :: paddiBits) = .ok c ∧ c.details = [r] :=
    exists_record (by decide +kernel)
  obtain ⟨-, hw, hlayout, -⟩ := parseLayout_ok (parseEntry_record hc hr)
  have hspecs : bitSpecs paddiBits = [.fixed 11 0x30, .var 1 ['a'], .fixed 2 0, .var 18 ['b'],
      .fixed 6 14, .var 26 ['c']] := by decide +kernel
  refine ⟨c, r, hc, hr, ?_, ?_⟩
  · rw [hspecs]
    simp [Spec.Fits]
  · rintro ⟨L, hL⟩
    refine hlayout.not_isPartition hw ?_ ?_ ⟨.var 1 ['a'], by rw [hspecs]; simp, rfl, by decide⟩ L hL
    · rw [hspecs]; decide
    · rw [hspecs]; decide

/-! ### Fixed bits -/

/-- Each fixed bit field holds its own number. -/
def Isolated (specs : List Spec) (r : Insnrec) : Prop :=
  ∀ len val low, (Spec.fixed len val, low) ∈ placed Spec.len specs →
    (getField (low + lowest (width specs)) len r.fixedbits).toNat = val

/-- A number sets a bit of the word that belongs to no fixed bit field. -/
def Excess (specs : List Spec) : Prop :=
  ∃ p ∈ placed Spec.len specs, ∃ i, p.1.bits.getLsbD i = true ∧
    p.2 + lowest (width specs) + i < 64 ∧
    ∀ q ∈ placed Spec.len specs, q.1.isFixed = true → ¬ InField q.2 q.1.len (p.2 + i)

/-- What the last check sees. -/
theorem linedUp_iff_not_excess {specs : List Spec} (hw : GoodWidth (width specs)) :
    BitSubset (accumulate Spec.len Spec.bits 0 specs <<< lowest (width specs))
        (accumulate Spec.len Spec.mask 0 specs <<< lowest (width specs)) ↔ ¬ Excess specs := by
  constructor
  · rintro hsub ⟨p, hp, i, hbit, hlt, hout⟩
    have hset := hsub (p.2 + lowest (width specs) + i) ((getLsbD_fixedBits specs _).mpr
      ⟨hlt, p, hp, by omega, by rwa [Nat.add_sub_cancel_left]⟩)
    obtain ⟨q, hq, hfix, hge, hlt'⟩ := (getLsbD_fixedMask hw _).mp hset
    exact hout q hq hfix ⟨by omega, by omega⟩
  · intro hex j hj
    obtain ⟨hj64, p, hp, hle, hbit⟩ := (getLsbD_fixedBits specs j).mp hj
    by_contra hnot
    refine hex ⟨p, hp, _, hbit, by omega, fun q hq hfix hin => hnot ?_⟩
    obtain ⟨hge, hlt⟩ := hin
    exact (getLsbD_fixedMask hw j).mpr ⟨q, hq, hfix, by omega, by omega⟩

/-- Numbers that fit do not reach into other bit fields. -/
theorem HasLayout.isolated {specs : List Spec} {r : Insnrec} (h : HasLayout specs r)
    (hw : GoodWidth (width specs)) (hfits : ∀ s ∈ specs, s.Fits) : Isolated specs r := by
  intro len val low hp
  have hbound := lowest_bound hw
  have hp' : low + len ≤ width specs := placed_width hp
  have hmem : ∀ q ∈ placed Spec.len specs, q.1.Fits := by
    intro q hq
    apply hfits
    rw [← map_fst_placed specs]
    exact List.mem_map_of_mem hq
  have hval : val < 2 ^ len := hmem _ hp
  have hword : val < 2 ^ 64 := hval.trans_le (Nat.pow_le_pow_right (by decide) (by omega))
  have hfield : getField (low + lowest (width specs)) len r.fixedbits = uv val := by
    apply BitVec.eq_of_getLsbD_eq
    intro i hi
    rw [getLsbD_getField, Bool.eq_iff_iff, Bool.and_eq_true, decide_eq_true_eq, h.fixedbits,
      getLsbD_fixedBits]
    constructor
    · rintro ⟨hlen, -, q, hq, hle, hbit⟩
      have hin := (hmem q hq).lt_len hbit
      have hsame := placed_unique (p := (Spec.fixed len val, low)) (q := q)
        (i := low + i) hp hq ⟨by simp, by simpa [Spec.len] using hlen⟩ ⟨by omega, by omega⟩
      rw [← hsame] at hbit
      simpa [Spec.bits] using hbit
    · intro hbit
      have hlen : i < len := (hmem _ hp).lt_len hbit
      exact ⟨hlen, by omega, _, hp, by simp, by simpa [Spec.bits] using hbit⟩
  rw [hfield, uv_natCast hword, BitVec.toNat_ofNat, Nat.mod_eq_of_lt hword]

/-- **When fixed bit fields are isolated.**  In every accepted pattern each fixed bit field holds its
own number, and numbers that do not fit are rejected, exactly if all numbers fit or one of them sets a
bit that belongs to no fixed bit field. -/
theorem parseLayout_isolated_iff (insn enc : List Char) (groups bits : List (List Char)) :
    (∀ r, parseLayout insn enc groups bits = .ok r →
      (∀ s ∈ bitSpecs bits, s.Fits) ∧ Isolated (bitSpecs bits) r) ↔
    (Recognised false bits → GoodWidth (width (bitSpecs bits)) →
      (∀ s ∈ bitSpecs bits, s.Fits) ∨ Excess (bitSpecs bits)) := by
  constructor
  · intro h hrec hw
    by_contra hnot
    obtain ⟨hfits, hex⟩ := not_or.mp hnot
    obtain ⟨r, hr⟩ : ∃ r, parseLayout insn enc groups bits = .ok r :=
      parseLayout_isOk_iff.mpr ⟨hrec, hw, (linedUp_iff_not_excess hw).mpr hex⟩
    exact hfits (h r hr).1
  · intro h r hr
    obtain ⟨hrec, hw, hlayout, hsub⟩ := parseLayout_ok hr
    rw [hlayout.fixedbits, hlayout.fixedbitmask, linedUp_iff_not_excess hw] at hsub
    have hfits := (h hrec hw).resolve_right hsub
    exact ⟨hfits, hlayout.isolated hw hfits⟩

/-- The number 7 in one bit, after two zeros. -/
def overflowBits : List (List Char) := tokenise "00 7:1 rt:5 ra:5 rb:5 00000000000000".toList

/-- It is accepted, and turns the zeros into ones. -/
theorem overflow_accepted :
    ∃ r, parseLayout "INSN".toList "ENC".toList [] overflowBits = .ok r ∧
      ¬ (∀ s ∈ bitSpecs overflowBits, s.Fits) ∧ ¬ Isolated (bitSpecs overflowBits) r := by
  have hspecs : bitSpecs overflowBits = [.fixed 2 0, .fixed 1 7, .var 5 "rt".toList,
      .var 5 "ra".toList, .var 5 "rb".toList, .fixed 14 0] := by decide +kernel
  have hbits : (parseLayout "INSN".toList "ENC".toList [] overflowBits).toOption.map
      Insnrec.fixedbits = some 0xe0000000 := by decide +kernel
  cases hr : parseLayout "INSN".toList "ENC".toList [] overflowBits with
  | error e => rw [hr] at hbits; cases hbits
  | ok r =>
    rw [hr] at hbits
    have hfixed : r.fixedbits = 0xe0000000 := Option.some.inj hbits
    refine ⟨r, rfl, ?_, ?_⟩
    · intro h
      have : (Spec.fixed 1 7).Fits := h _ (by rw [hspecs]; simp)
      simp [Spec.Fits] at this
    · intro h
      have := h 2 0 30 (by rw [hspecs]; simp [placed, totalLen, Spec.len])
      rw [hfixed, hspecs] at this
      revert this
      decide

end Risu.Gen
