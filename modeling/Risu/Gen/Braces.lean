import Risu.Gen.Layout

/-!
# Braces (`read_tokenised_line`, `parse_config_file`)

A brace that is left unmatched is meant to show up as a token of its own.  The tokeniser takes braces
that follow each other in one token, though, and one of these that begins with `{` passes for a block.

* `balanced` — balanced braces, by counting;
* `IsGroup`, `balanced_iff` — a line is balanced if its tokens with braces are groups;
* `parseBits_blocks` — where the blocks of a record come from;
* `parseEntry_balanced_iff` — when an accepted pattern is balanced.
-/

namespace Risu.Gen

open Lib

/-! ### Balanced lines -/

/-- The braces are balanced, with the given number of them open.  Within a group a backslash takes the
next character with it. -/
def balanced : ℕ → List Char → Bool
  | d, [] => d == 0
  | 0, '{' :: cs => balanced 1 cs
  | 0, '}' :: _ => false
  | 0, _ :: cs => balanced 0 cs
  | d + 1, '\\' :: _ :: cs => balanced (d + 1) cs
  | d + 1, '{' :: cs => balanced (d + 2) cs
  | d + 1, '}' :: cs => balanced d cs
  | d + 1, _ :: cs => balanced (d + 1) cs

/-- One balanced group. -/
def IsGroup (t : List Char) : Prop := openGroup t = some (t, [])

theorem balanced_of_closeGroup {d : ℕ} {cs g rest : List Char}
    (h : closeGroup d cs = some (g, rest)) : balanced (d + 1) cs = balanced 0 rest := by
  fun_induction closeGroup d cs generalizing g rest with
  | case1 => cases h
  | case4 cs => cases h; rw [balanced]
  | case2 d c cs ih | case3 d cs ih | case5 d cs ih =>
    simp only [Option.map_eq_some_iff, Prod.mk.injEq, Prod.exists] at h
    obtain ⟨g', rest', h', -, rfl⟩ := h
    rw [balanced, ih h']
  | case6 d c cs hesc hopen hzero hsucc ih =>
    simp only [Option.map_eq_some_iff, Prod.mk.injEq, Prod.exists] at h
    obtain ⟨g', rest', h', -, rfl⟩ := h
    rw [balanced, ih h']
    · exact hesc
    · exact hopen
    · cases d with
      | zero => exact hzero rfl
      | succ d => exact hsucc d rfl

theorem balanced_of_closeGroup_none {d : ℕ} {cs : List Char} (h : closeGroup d cs = none) :
    balanced (d + 1) cs = false := by
  fun_induction closeGroup d cs with
  | case1 d => rfl
  | case4 cs => cases h
  | case2 d c cs ih | case3 d cs ih | case5 d cs ih =>
    rw [balanced]
    exact ih (by simpa using h)
  | case6 d c cs hesc hopen hzero hsucc ih =>
    rw [balanced, ih (by simpa using h)]
    · exact hesc
    · exact hopen
    · cases d with
      | zero => exact hzero rfl
      | succ d => exact hsucc d rfl

/-- A group ends where it ends, whatever follows. -/
theorem closeGroup_replay {d : ℕ} {cs g rest : List Char} (h : closeGroup d cs = some (g, rest))
    (more : List Char) : closeGroup d (g ++ more) = some (g, more) := by
  fun_induction closeGroup d cs generalizing g rest with
  | case1 => cases h
  | case4 cs =>
    cases h
    rw [List.singleton_append, closeGroup]
  | case2 d c cs ih | case3 d cs ih | case5 d cs ih =>
    simp only [Option.map_eq_some_iff, Prod.mk.injEq, Prod.exists] at h
    obtain ⟨g', rest', h', rfl, -⟩ := h
    simp only [List.cons_append]
    rw [closeGroup, ih h']
    rfl
  | case6 d c cs hesc hopen hzero hsucc ih =>
    simp only [Option.map_eq_some_iff, Prod.mk.injEq, Prod.exists] at h
    obtain ⟨g', rest', h', rfl, -⟩ := h
    rw [List.cons_append, closeGroup, ih h']
    · rfl
    · intro e cs' hc _
      cases cs with
      | nil => cases h'
      | cons e' cs => exact hesc e' cs hc rfl
    · exact hopen
    · exact hzero
    · exact hsucc

theorem openGroup_replay {cs g rest : List Char} (h : openGroup cs = some (g, rest))
    (more : List Char) : openGroup (g ++ more) = some (g, more) := by
  unfold openGroup at h
  split at h
  · simp only [Option.map_eq_some_iff, Prod.mk.injEq, Prod.exists] at h
    obtain ⟨g', rest', h', rfl, -⟩ := h
    rw [List.cons_append, openGroup, closeGroup_replay h']
    rfl
  · cases h

theorem isGroup_of_extractBracketed {cs g rest : List Char}
    (h : extractBracketed cs = some (g, rest)) : IsGroup g := by
  have := openGroup_replay h []
  rwa [List.append_nil] at this

/-! ### Balanced lines and their tokens -/

theorem balanced_of_no_brace {p cs : List Char} (h : ∀ c ∈ p, isBrace c = false) :
    balanced 0 (p ++ cs) = balanced 0 cs := by
  induction p with
  | nil => rfl
  | cons c p ih =>
    have hc := h c List.mem_cons_self
    rw [List.cons_append, balanced, ih fun d hd => h d (List.mem_cons_of_mem c hd)]
    · intro heq
      rw [heq] at hc
      cases hc
    · intro heq
      rw [heq] at hc
      cases hc

theorem isBrace_of_isSpace {c : Char} (h : isSpace c = true) : isBrace c = false := by
  simp only [isSpace, Bool.or_eq_true, beq_iff_eq] at h
  rcases h with ((((rfl | rfl) | rfl) | rfl) | rfl) | rfl <;> rfl

/-- A group and the white space before it leave the count as it was. -/
theorem balanced_of_extractBracketed {cs g rest : List Char}
    (h : extractBracketed cs = some (g, rest)) : balanced 0 cs = balanced 0 rest := by
  have hsplit : cs = cs.takeWhile isSpace ++ cs.dropWhile isSpace :=
    List.takeWhile_append_dropWhile.symm
  have hspace : ∀ c ∈ cs.takeWhile isSpace, isBrace c = false := fun c hc =>
    isBrace_of_isSpace (List.mem_takeWhile_imp hc)
  rw [hsplit, balanced_of_no_brace hspace]
  unfold extractBracketed openGroup at h
  split at h
  · rename_i cs' heq
    simp only [Option.map_eq_some_iff, Prod.mk.injEq, Prod.exists] at h
    obtain ⟨g', rest', h', -, rfl⟩ := h
    rw [heq, balanced, balanced_of_closeGroup h']
  · cases h

theorem extractBracketed_brace (c : Char) (cs : List Char) (hc : isBrace c = true) :
    extractBracketed (c :: cs) = openGroup (c :: cs) := by
  have hspace : ¬ isSpace c = true := fun h => by rw [isBrace_of_isSpace h] at hc; cases hc
  rw [extractBracketed, List.dropWhile_cons_of_neg hspace]

/-- A brace that opens no group cannot be balanced. -/
theorem balanced_of_unmatched {c : Char} {cs : List Char} (hc : isBrace c = true)
    (h : extractBracketed (c :: cs) = none) : balanced 0 (c :: cs) = false := by
  rw [extractBracketed_brace c cs hc] at h
  simp only [isBrace, Bool.or_eq_true, beq_iff_eq] at hc
  rcases hc with rfl | rfl
  · rw [balanced]
    exact balanced_of_closeGroup_none (by simpa [openGroup] using h)
  · rw [balanced]

/-- The run of braces taken there is no group either. -/
theorem not_isGroup_of_unmatched {c : Char} {cs : List Char} (hc : isBrace c = true)
    (h : extractBracketed (c :: cs) = none) : ¬ IsGroup (c :: cs.takeWhile isBrace) := by
  intro hgroup
  have hmore := openGroup_replay hgroup (cs.dropWhile isBrace)
  rw [List.cons_append, List.takeWhile_append_dropWhile, ← extractBracketed_brace c cs hc, h] at hmore
  cases hmore

/-- Tokens with braces are groups, or runs of braces that are none. -/
theorem token_cases {cs t : List Char} (ht : t ∈ tokenise cs) (hbrace : t.head?.any isBrace = true) :
    IsGroup t ∨ t.all isBrace = true := by
  induction cs using tokenise_induct with
  | nil => cases ht
  | group cs g rest hg ih =>
    rw [tokenise_of_group hg] at ht
    rcases List.mem_cons.mp ht with rfl | ht
    · exact .inl (isGroup_of_extractBracketed hg)
    · exact ih ht
  | plain c cs hg hc ih =>
    rw [tokenise_of_plain hg hc] at ht
    rcases List.mem_cons.mp ht with rfl | ht
    · simp only [List.head?_cons, Option.any_some] at hbrace
      simp [isPlain, hbrace] at hc
    · exact ih ht
  | brace c cs hg hc ih =>
    rw [tokenise_of_brace hg hc] at ht
    rcases List.mem_cons.mp ht with rfl | ht
    · refine .inr (List.all_eq_true.mpr fun d hd => ?_)
      rcases List.mem_cons.mp hd with rfl | hd
      · exact hc
      · exact List.mem_takeWhile_imp hd
    · exact ih ht
  | blank cs ih =>
    rw [tokenise_of_blank] at ht
    exact ih ht

/-- **A line is balanced exactly if all its tokens with braces are groups.** -/
theorem balanced_iff (cs : List Char) :
    balanced 0 cs = true ↔ ∀ t ∈ tokenise cs, t.head?.any isBrace = true → IsGroup t := by
  induction cs using tokenise_induct with
  | nil => simp [balanced]
  | group cs g rest hg ih =>
    rw [tokenise_of_group hg, List.forall_mem_cons, balanced_of_extractBracketed hg, ih]
    exact (and_iff_right fun _ => isGroup_of_extractBracketed hg).symm
  | plain c cs hg hc ih =>
    have hplain : ∀ d ∈ c :: cs.takeWhile isPlain, isBrace d = false := by
      intro d hd
      have hd' : isPlain d = true := by
        rcases List.mem_cons.mp hd with rfl | hd
        · exact hc
        · exact List.mem_takeWhile_imp hd
      simp only [isPlain, Bool.and_eq_true, Bool.not_eq_true'] at hd'
      exact hd'.1
    have hsplit : c :: cs = (c :: cs.takeWhile isPlain) ++ cs.dropWhile isPlain := by
      rw [List.cons_append, List.takeWhile_append_dropWhile]
    have hword : (c :: cs.takeWhile isPlain).head?.any isBrace ≠ true := by
      simp [hplain c List.mem_cons_self]
    rw [tokenise_of_plain hg hc, List.forall_mem_cons, hsplit, balanced_of_no_brace hplain, ih]
    exact (and_iff_right fun h => absurd h hword).symm
  | brace c cs hg hc ih =>
    rw [tokenise_of_brace hg hc, List.forall_mem_cons, balanced_of_unmatched hc hg]
    refine iff_of_false Bool.false_ne_true ?_
    exact fun h => not_isGroup_of_unmatched hc hg (h.1 (by simpa using hc))
  | blank cs ih =>
    have hblank : balanced 0 (' ' :: cs) = balanced 0 cs := rfl
    rw [tokenise_of_blank, hblank, ih]

/-! ### Accepted patterns -/

/-- A block of the result was a block before or is a token that begins with `{`. -/
theorem parseBits_blocks {insn enc : List Char} {s s' : BitState} {bits : List (List Char)}
    (h : parseBits insn enc s bits = .ok s') {b : Block} {text : List Char}
    (hb : s'.blocks b = some text) :
    s.blocks b = some text ∨ text ∈ bits ∧ text.head? = some '{' := by
  have hset : ∀ (s : BitState) (b' : Block) (t : List Char),
      (s.setBlock b' t).blocks b = some text → s.blocks b = some text ∨ text = t := by
    intro s b' t ht
    simp only [BitState.setBlock] at ht
    split_ifs at ht
    · exact .inr (Option.some.inj ht).symm
    · exact .inl ht
  fun_induction parseBits insn enc s bits with
  | case1 =>
    cases h
    exact .inl hb
  | case2 => cases h
  | case3 => cases h
  | case4 => cases h
  | case5 s bit hbit block bits hblock b' hname ih =>
    rcases ih h with hold | ⟨hmem, hhead⟩
    · rcases hset s b' block hold with hold | rfl
      · exact .inl hold
      · exact .inr ⟨by simp, not_not.mp hblock⟩
    · exact .inr ⟨by simp [hmem], hhead⟩
  | case6 s bit bits hbang hbrace ih =>
    rcases ih h with hold | ⟨hmem, hhead⟩
    · rcases hset s .constraints bit hold with hold | rfl
      · exact .inl hold
      · exact .inr ⟨by simp, hbrace⟩
    · exact .inr ⟨by simp [hmem], hhead⟩
  | case7 => cases h
  | case8 => cases h
  | case9 => cases h
  | case10 s bit bits hbang hbrace spec hspec hseen hwidth ih =>
    have hkeep : (s.push spec).blocks = s.blocks := by cases spec <;> rfl
    rcases ih h with hold | ⟨hmem, hhead⟩
    · rw [hkeep] at hold
      exact .inl hold
    · exact .inr ⟨by simp [hmem], hhead⟩

theorem parseLayout_blocks {insn enc : List Char} {groups bits : List (List Char)} {r : Insnrec}
    (h : parseLayout insn enc groups bits = .ok r) {b : Block} {text : List Char}
    (hb : r.blocks b = some text) : text ∈ bits ∧ text.head? = some '{' := by
  obtain ⟨s, hbits, h⟩ := bind_eq_ok.mp h
  obtain ⟨s', halign, h⟩ := bind_eq_ok.mp h
  split_ifs at h
  cases h
  obtain ⟨-, rfl⟩ := alignWidth_ok halign
  rcases parseBits_blocks hbits hb with hinit | hmem
  · cases hinit
  · exact hmem

/-- No bit field begins with a closing brace. -/
theorem parseSpec_closing (cs : List Char) : parseSpec ('}' :: cs) = none := by
  have hfixed : isFixedBits ('}' :: cs) = false := rfl
  have htext : ('}' :: cs).takeWhile (· != ':') = '}' :: cs.takeWhile (· != ':') := rfl
  have hdrop : ('}' :: cs).dropWhile (· != ':') = cs.dropWhile (· != ':') := rfl
  have hvalue : ∀ ds, isValue ('}' :: ds) = false := fun _ => rfl
  have hvar : ∀ ds, isVar ('}' :: ds) = false := fun _ => rfl
  rw [parseSpec]
  rw [hfixed, hdrop]
  simp only [Bool.false_eq_true, if_false, htext, hvalue, hvar]
  split
  · split_ifs <;> rfl
  · rfl

/-- The tokens of a pattern that is recognised do not begin with a closing brace. -/
theorem Recognised.not_closing {seen : Bool} {bits : List (List Char)} (h : Recognised seen bits) :
    ∀ t ∈ bits, t.head? ≠ some '}' := by
  induction h with
  | nil => simp
  | named hbit hblock hname _ ih =>
    refine List.forall_mem_cons.mpr ⟨?_, List.forall_mem_cons.mpr ⟨?_, ih⟩⟩
    · rw [hbit]
      decide
    · rw [hblock]
      decide
  | unnamed hbit _ ih =>
    refine List.forall_mem_cons.mpr ⟨?_, ih⟩
    rw [hbit]
    decide
  | @bitField bit bits spec _ _ hspec _ ih =>
    refine List.forall_mem_cons.mpr ⟨?_, ih⟩
    intro hhead
    cases bit with
    | nil => cases hhead
    | cons c cs =>
      obtain rfl : c = '}' := by simpa using hhead
      rw [parseSpec_closing] at hspec
      cases hspec

theorem not_brace_of_isName {t : List Char} (h : isName t = true) : t.head?.any isBrace = false := by
  simp only [isName, Bool.and_eq_true] at h
  cases t with
  | nil => rfl
  | cons c cs =>
    have hc : isAlnum c = true := by simpa using h.1
    rw [List.head?_cons, Option.any_some]
    by_contra hbrace
    simp only [Bool.not_eq_false, isBrace, Bool.or_eq_true, beq_iff_eq] at hbrace
    rcases hbrace with rfl | rfl
    · cases hc
    · cases hc

/-- In an accepted pattern a token with braces begins with `{` and is longer. -/
theorem accepted_brace {c : Config} {insn enc : List Char} {bits : List (List Char)} {r : Insnrec}
    (hbraces : ∀ t ∈ insn :: enc :: bits, t ≠ ['{'] ∧ t ≠ ['}']) (hinsn : isName insn = true)
    (henc : isName enc = true) (h : parseLayout insn enc c.groups bits = .ok r) {t : List Char}
    (ht : t ∈ insn :: enc :: bits) (hbrace : t.head?.any isBrace = true) :
    t.head? = some '{' ∧ 2 ≤ t.length := by
  have hmem : t ∈ bits := by
    rcases List.mem_cons.mp ht with rfl | ht'
    · rw [not_brace_of_isName hinsn] at hbrace
      cases hbrace
    · rcases List.mem_cons.mp ht' with rfl | ht'
      · rw [not_brace_of_isName henc] at hbrace
        cases hbrace
      · exact ht'
  have hclosing := (parseLayout_ok h).1.not_closing t hmem
  have hsingle := hbraces t ht
  cases t with
  | nil => cases hbrace
  | cons d ds =>
    have hd : d = '{' := by
      simp only [List.head?_cons, Option.any_some, isBrace, Bool.or_eq_true, beq_iff_eq] at hbrace
      exact hbrace.resolve_right fun hd => hclosing (by rw [hd]; rfl)
    subst hd
    refine ⟨rfl, ?_⟩
    cases ds with
    | nil => exact absurd rfl hsingle.1
    | cons e es => simp

/-- The line is balanced and each block is one of its groups. -/
def BalancedPattern (line : List Char) (r : Insnrec) : Prop :=
  balanced 0 line = true ∧ ∀ b text, r.blocks b = some text → IsGroup text ∧ text ∈ tokenise line

/-- **When accepted patterns are balanced.**  An accepted pattern has balanced braces and groups for
blocks exactly if no token is a run of two or more braces that begins with `{` and is no group. -/
theorem parseEntry_balanced_iff {c c' : Config} {line : List Char} {r : Insnrec}
    (h : parseEntry c (tokenise line) = .ok c') (hr : c'.details = c.details ++ [r]) :
    BalancedPattern line r ↔
      ∀ t ∈ tokenise line, t.all isBrace = true → 2 ≤ t.length → t.head? = some '{' →
        IsGroup t := by
  obtain ⟨hbraces, hsame | ⟨insn, enc, bits, r', htokens, hinsn, henc, hlayout, hr'⟩⟩ :=
    parseEntry_ok h
  · rw [hsame] at hr
    exact absurd hr.symm (by simp)
  rw [hr] at hr'
  obtain rfl : r = r' := by simpa using hr'
  rw [BalancedPattern]
  rw [balanced_iff]
  constructor
  · rintro ⟨hall, -⟩ t ht - - hhead
    exact hall t ht (by rw [hhead]; rfl)
  · intro hruns
    have hall : ∀ t ∈ tokenise line, t.head?.any isBrace = true → IsGroup t := by
      intro t ht hbrace
      rcases token_cases ht hbrace with hgroup | hrun
      · exact hgroup
      · rw [htokens] at hbraces
        obtain ⟨hhead, hlen⟩ := accepted_brace hbraces hinsn henc hlayout (htokens ▸ ht) hbrace
        exact hruns t ht hrun hlen hhead
    refine ⟨hall, fun b text hb => ?_⟩
    obtain ⟨hmem, hhead⟩ := parseLayout_blocks hlayout hb
    have ht : text ∈ tokenise line := by
      rw [htokens]
      exact List.mem_cons_of_mem _ (List.mem_cons_of_mem _ hmem)
    exact ⟨hall text ht (by rw [hhead]; rfl), ht⟩

/-- A pattern with nested braces in its block. -/
def nestedLine : List Char :=
  "ADD PPC64LE 011111 rt:5 ra:5 rb:5 01000010100 !constraints \x7b if (1) \x7b 1 \x7d \x7d".toList

/-- A pattern with two braces that are never closed. -/
def openLine : List Char := "ADD PPC64LE 011111 rt:5 ra:5 rb:5 01000010100 \x7b\x7b".toList

theorem parseEntry_balanced_nested :
    ∃ c r, parseEntry .init (tokenise nestedLine) = .ok c ∧ c.details = [r] ∧
      BalancedPattern nestedLine r := by
  obtain ⟨c, r, hc, hr⟩ : ∃ c r,
      parseEntry .init (tokenise nestedLine) = .ok c ∧ c.details = [r] :=
    exists_record (by decide +kernel)
  refine ⟨c, r, hc, hr, (parseEntry_balanced_iff hc hr).mpr ?_⟩
  have hnone : (tokenise nestedLine).all (fun t => !t.all isBrace) = true := by decide +kernel
  intro t ht hrun
  rw [List.all_eq_true] at hnone
  simpa [hrun] using hnone t ht

/-- It is accepted, and the two braces are stored as its block. -/
theorem open_accepted :
    ∃ c r, parseEntry .init (tokenise openLine) = .ok c ∧ c.details = [r] ∧
      balanced 0 openLine = false ∧ r.blocks .constraints = some ['{', '{'] := by
  obtain ⟨c, r, hc, hr⟩ : ∃ c r,
      parseEntry .init (tokenise openLine) = .ok c ∧ c.details = [r] :=
    exists_record (by decide +kernel)
  have hblock : (parseEntry .init (tokenise openLine)).toOption.map
      (fun c => c.details.map fun r => r.blocks .constraints) = some [some ['{', '{']] := by
    decide +kernel
  rw [hc] at hblock
  simp only [Except.toOption, Option.map_some, hr, List.map_cons, List.map_nil, Option.some.injEq,
    List.cons.injEq, and_true] at hblock
  exact ⟨c, r, hc, hr, by decide +kernel, hblock⟩

end Risu.Gen
