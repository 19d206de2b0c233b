import Risu.Gen.Partition

/-!
# Fields of an instruction (`update_insn`, `eval_with_fields`, `gen_one_insn`)

The reader and the writer of a field and the generator each recompute shifts and masks from the
record.  For patterns of 16 and 32 bits these are the fields of `placed`, so that the laws of
`getField` and `putField` apply.

* `genInsn` — the instruction made from a random word;
* `updateInsn`, `readField` — a field written, and its value where a block is evaluated;
* `FieldLaws`, `parseEntry_fieldLaws` — each field is a lens, independent of the others and of the
  fixed bits.
-/

namespace Risu.Gen

open Lib

/-- `$insn &= ~$fixedbitmask; $insn |= $fixedbits` -/
def genInsn (r : Insnrec) (word : BitVec 64) : BitVec 64 :=
  (word &&& ~~~r.fixedbitmask) ||| r.fixedbits

/-- `update_insn`: the first field of that name is changed. -/
def updateInsn (r : Insnrec) (changevar : List Char) (newval : ℤ) (insn : BitVec 64) : BitVec 64 :=
  match r.fields.find? fun f => f.var == changevar with
  | some f => (insn &&& ~~~(shl f.mask f.pos)) ||| shl (uv newval &&& f.mask) f.pos
  | none => insn

/-- The variable that `eval_with_fields` sets for a block; of two fields with one name the last one
counts. -/
def readField (r : Insnrec) (insn : BitVec 64) (var : List Char) : Option (BitVec 64) :=
  (r.fields.reverse.find? fun f => f.var == var).map fun f => shr insn f.pos &&& f.mask

/-! ### Fields by name -/

theorem find_of_nodup {L : List Field} (hL : (L.map Field.var).Nodup) {f : Field} (hf : f ∈ L) :
    (L.find? fun g => g.var == f.var) = some f := by
  induction L with
  | nil => cases hf
  | cons g L ih =>
    rw [List.map_cons, List.nodup_cons] at hL
    rcases List.mem_cons.mp hf with rfl | hf
    · simp
    · have hne : g.var ≠ f.var := fun h => hL.1 (h ▸ List.mem_map_of_mem hf)
      rw [List.find?_cons_of_neg (by simpa using hne)]
      exact ih hL.2 hf

section laws

variable {specs : List Spec} {r : Insnrec} {f g : Field}

/-- A field where the recorded position is right. -/
structure FieldAt (f : Field) (pos len : ℕ) : Prop where
  pos_eq : f.pos = pos
  mask_eq : f.mask = ones 64 len
  bound : pos + len ≤ 64

theorem HasLayout.fieldAt (h : HasLayout specs r) (hw : width specs = 16 ∨ width specs = 32)
    (hf : f ∈ r.fields) : ∃ len low, (Spec.var len f.var, low) ∈ placed Spec.len specs ∧
      FieldAt f (low + lowest (width specs)) len := by
  rw [h.fields, List.mem_filterMap] at hf
  obtain ⟨⟨spec, low⟩, hp, hfield⟩ := hf
  have hp' := placed_width hp
  cases spec with
  | fixed len val => cases hfield
  | var len name =>
    cases hfield
    refine ⟨len, low, hp, ?_, rfl, ?_⟩
    · simp only [Spec.len] at hp'
      unfold lowest
      rcases hw with hw | hw
      · rw [if_pos hw, hw]
        push_cast
        omega
      · rw [if_neg (by omega), hw]
        push_cast
        omega
    · simp only [Spec.len] at hp'
      unfold lowest
      split_ifs <;> omega

theorem FieldAt.update {pos len : ℕ} (h : FieldAt f pos len) (hL : (r.fields.map Field.var).Nodup)
    (hf : f ∈ r.fields) (v : ℤ) (x : BitVec 64) :
    updateInsn r f.var v x = putField pos len x (uv v) := by
  rw [updateInsn, find_of_nodup hL hf]
  simp only
  rw [h.pos_eq, h.mask_eq, shl_natCast, shl_natCast]
  rfl

theorem FieldAt.read {pos len : ℕ} (h : FieldAt f pos len) (hL : (r.fields.map Field.var).Nodup)
    (hf : f ∈ r.fields) (x : BitVec 64) : readField r x f.var = some (getField pos len x) := by
  have hL' : (r.fields.reverse.map Field.var).Nodup := by
    rw [List.map_reverse]
    exact List.nodup_reverse.mpr hL
  rw [readField, find_of_nodup hL' (List.mem_reverse.mpr hf), Option.map_some, h.pos_eq, h.mask_eq,
    shr_natCast]
  rfl

/-- Two bit fields of a pattern have no bit in common. -/
theorem placed_disjoint {p q : Spec × ℕ} (hp : p ∈ placed Spec.len specs)
    (hq : q ∈ placed Spec.len specs) (hne : p ≠ q) (k : ℕ) :
    DisjointFields (p.2 + k) p.1.len (q.2 + k) q.1.len := by
  intro i hi hi'
  obtain ⟨hge, hlt⟩ := hi
  obtain ⟨hge', hlt'⟩ := hi'
  exact hne (placed_unique (i := i - k) hp hq ⟨by omega, by omega⟩ ⟨by omega, by omega⟩)

/-- The laws of the fields of a record. -/
structure FieldLaws (r : Insnrec) : Prop where
  generated : ∀ word, genInsn r word &&& r.fixedbitmask = r.fixedbits
  read_update : ∀ f ∈ r.fields, ∀ (v : ℤ) (x : BitVec 64),
    readField r (updateInsn r f.var v x) f.var = some (uv v &&& f.mask)
  read_update_other : ∀ f ∈ r.fields, ∀ g ∈ r.fields, g.var ≠ f.var → ∀ (v : ℤ) (x : BitVec 64),
    readField r (updateInsn r f.var v x) g.var = readField r x g.var
  fixed_update : ∀ f ∈ r.fields, ∀ (v : ℤ) (x : BitVec 64),
    updateInsn r f.var v x &&& r.fixedbitmask = x &&& r.fixedbitmask
  update_update : ∀ f ∈ r.fields, ∀ (u v : ℤ) (x : BitVec 64),
    updateInsn r f.var u (updateInsn r f.var v x) = updateInsn r f.var u x
  update_comm : ∀ f ∈ r.fields, ∀ g ∈ r.fields, g.var ≠ f.var → ∀ (u v : ℤ) (x : BitVec 64),
    updateInsn r g.var u (updateInsn r f.var v x) = updateInsn r f.var v (updateInsn r g.var u x)

theorem genInsn_fixed (h : BitSubset r.fixedbits r.fixedbitmask) (word : BitVec 64) :
    genInsn r word &&& r.fixedbitmask = r.fixedbits := by
  apply BitVec.eq_of_getLsbD_eq
  intro i hi
  simp only [genInsn, BitVec.getLsbD_and, BitVec.getLsbD_or, BitVec.getLsbD_not, hi, decide_true,
    Bool.true_and]
  cases hm : r.fixedbitmask.getLsbD i with
  | true => simp
  | false =>
    cases hb : r.fixedbits.getLsbD i with
    | true => rw [h i hb] at hm; cases hm
    | false => simp

theorem HasLayout.disjoint (h : HasLayout specs r) (hw : width specs = 16 ∨ width specs = 32)
    (hf : f ∈ r.fields) (hg : g ∈ r.fields) (hne : g.var ≠ f.var) :
    ∃ pos len pos' len', FieldAt f pos len ∧ FieldAt g pos' len' ∧
      DisjointFields pos len pos' len' := by
  obtain ⟨len, low, hp, hat⟩ := h.fieldAt hw hf
  obtain ⟨len', low', hp', hat'⟩ := h.fieldAt hw hg
  refine ⟨_, _, _, _, hat, hat', placed_disjoint hp hp' ?_ _⟩
  intro heq
  simp only [Prod.mk.injEq, Spec.var.injEq] at heq
  exact hne heq.1.2.symm

theorem HasLayout.fieldLaws (h : HasLayout specs r) (hw : width specs = 16 ∨ width specs = 32)
    (hsub : BitSubset r.fixedbits r.fixedbitmask) (hL : (r.fields.map Field.var).Nodup) :
    FieldLaws r where
  generated := genInsn_fixed hsub
  read_update := by
    intro f hf v x
    obtain ⟨len, low, -, hat⟩ := h.fieldAt hw hf
    rw [hat.read hL hf, hat.update hL hf, getField_putField hat.bound, hat.mask_eq]
  read_update_other := by
    intro f hf g hg hne v x
    obtain ⟨pos, len, pos', len', hat, hat', hd⟩ := h.disjoint hw hf hg hne
    rw [hat'.read hL hg, hat'.read hL hg, hat.update hL hf, getField_putField_of_disjoint hd]
  fixed_update := by
    intro f hf v x
    obtain ⟨len, low, hp, hat⟩ := h.fieldAt hw hf
    rw [hat.update hL hf]
    apply putField_and_of_disjoint
    intro i hi
    by_contra hset
    rw [Bool.not_eq_false, h.getLsbD_fixedbitmask (by unfold GoodWidth; omega)] at hset
    obtain ⟨q, hq, hfix, hin⟩ := hset
    refine placed_disjoint hp hq ?_ (lowest (width specs)) i hi hin
    intro heq
    rw [← heq] at hfix
    cases hfix
  update_update := by
    intro f hf u v x
    obtain ⟨len, low, -, hat⟩ := h.fieldAt hw hf
    rw [hat.update hL hf, hat.update hL hf, hat.update hL hf, putField_putField]
  update_comm := by
    intro f hf g hg hne u v x
    obtain ⟨pos, len, pos', len', hat, hat', hd⟩ := h.disjoint hw hf hg hne
    rw [hat'.update hL hg, hat'.update hL hg, hat.update hL hf, hat.update hL hf,
      putField_comm hd.symm]

end laws

/-- **Fields of an instruction are lenses.**  In every accepted pattern of 16 or 32 bits whose fields
have distinct names, whatever the numbers written and the instruction they are written to. -/
theorem parseEntry_fieldLaws {c c' : Config} {insn enc : List Char} {bits : List (List Char)}
    {r : Insnrec} (h : parseEntry c (insn :: enc :: bits) = .ok c')
    (hr : c'.details = c.details ++ [r]) (hw : r.width = 16 ∨ r.width = 32)
    (hL : (r.fields.map Field.var).Nodup) : FieldLaws r := by
  obtain ⟨-, -, hlayout, hsub⟩ := parseLayout_ok (parseEntry_record h hr)
  rw [hlayout.insnwidth] at hw
  exact hlayout.fieldLaws hw hsub hL

/-- The fields of `ADD PPC64LE`. -/
theorem parseEntry_fieldLaws_add :
    ∃ c r, parseEntry .init ("ADD".toList :: "PPC64LE".toList :: addBits) = .ok c ∧
      c.details = [r] ∧ FieldLaws r := by
  obtain ⟨c, r, hc, hr⟩ : ∃ c r,
      parseEntry .init ("ADD".toList :: "PPC64LE".toList :: addBits) = .ok c ∧ c.details = [r] :=
    exists_record (by decide +kernel)
  have hboth : (parseEntry .init ("ADD".toList :: "PPC64LE".toList :: addBits)).toOption.map
      (fun c => c.details.map fun r => (r.width, r.fields.map Field.var)) =
        some [(32, ["rt".toList, "ra".toList, "rb".toList])] := by decide +kernel
  rw [hc] at hboth
  simp only [Except.toOption, Option.map_some, hr, List.map_cons, List.map_nil, Option.some.injEq,
    List.cons.injEq, Prod.mk.injEq, and_true] at hboth
  refine ⟨c, r, hc, hr, parseEntry_fieldLaws hc hr (.inr hboth.1) ?_⟩
  rw [hboth.2]
  decide

end Risu.Gen
