import Risu.Gen.Config

/-!
# Blank and comment lines (`read_tokenised_line`)

A physical line of which nothing is left stays in the buffer as the white space it had.  Blanks are
then passed over by the tokeniser, but a tab is an ordinary character there.

* `Skippable`, `readLogical_skippable` — lines that are passed over, and what they leave behind;
* `Complete`, `tokenLists_complete` — the lines of whole entries;
* `tokenise_padding_iff` — when white space before a line changes its tokens;
* `tokenLists_insert_iff` — when lines may be inserted.
-/

namespace Risu.Gen

/-! ### White space in front of a line -/

/-- Blanks and tabs. -/
def isPad (c : Char) : Bool := c == ' ' || c == '\t'

theorem isSpace_of_isPad {c : Char} (h : isPad c = true) : isSpace c = true := by
  simp only [isPad, Bool.or_eq_true, beq_iff_eq] at h
  rcases h with rfl | rfl
  · rfl
  · rfl

/-- White space other than a blank is an ordinary character to the tokeniser. -/
theorem isPlain_of_isSpace {c : Char} (h : isSpace c = true) : c = ' ' ∨ isPlain c = true := by
  simp only [isSpace, Bool.or_eq_true, beq_iff_eq] at h
  rcases h with ((((rfl | rfl) | rfl) | rfl) | rfl) | rfl
  · exact .inl rfl
  all_goals exact .inr rfl

/-- The line begins with a character that a word begins with. -/
def startsPlain (cs : List Char) : Bool := cs.head?.any isPlain

theorem extractBracketed_pad {ws : List Char} (hws : ∀ c ∈ ws, isSpace c = true) (cs : List Char) :
    extractBracketed (ws ++ cs) = extractBracketed cs := by
  have hdrop : (ws ++ cs).dropWhile isSpace = cs.dropWhile isSpace :=
    List.dropWhile_append_of_pos hws
  rw [extractBracketed, hdrop, extractBracketed]

/-- In front of a group white space is passed over. -/
theorem tokenise_pad_group {ws cs : List Char} (hws : ∀ c ∈ ws, isSpace c = true)
    (h : (extractBracketed cs).isSome = true) : tokenise (ws ++ cs) = tokenise cs := by
  obtain ⟨⟨g, rest⟩, hg⟩ := Option.isSome_iff_exists.mp h
  rw [tokenise_of_group hg, tokenise_of_group ((extractBracketed_pad hws cs).trans hg)]

theorem tokenise_blanks {ws : List Char} (hws : ∀ c ∈ ws, c = ' ') (cs : List Char) :
    tokenise (ws ++ cs) = tokenise cs := by
  induction ws with
  | nil => rfl
  | cons c ws ih =>
    obtain rfl := hws c List.mem_cons_self
    rw [List.cons_append, tokenise_of_blank, ih fun d hd => hws d (List.mem_cons_of_mem _ hd)]

/-- A tab, or other white space than a blank, becomes part of the word after it, or a word of its own. -/
theorem tokenise_tab {c : Char} {cs : List Char} (hspace : isSpace c = true) (hplain : isPlain c = true)
    (h : extractBracketed cs = none) :
    tokenise (c :: cs) =
      if startsPlain cs then (c :: (tokenise cs).headD []) :: (tokenise cs).tail
      else [c] :: tokenise cs := by
  have htab : extractBracketed (c :: cs) = none := by
    rw [← h, extractBracketed, List.dropWhile_cons_of_pos hspace, extractBracketed]
  rw [tokenise_of_plain htab hplain]
  cases cs with
  | nil => rfl
  | cons c cs =>
    cases hc : isPlain c with
    | true =>
      rw [tokenise_of_plain h hc]
      simp [startsPlain, hc]
    | false => simp [startsPlain, hc]

theorem startsPlain_append_cons (c : Char) (ws cs : List Char) :
    startsPlain (c :: ws ++ cs) = isPlain c := by
  simp [startsPlain]

/-- Padding in front of two lines keeps apart what was apart, if both begin alike. -/
theorem tokenise_pad_iff {ws x y : List Char} (hws : ∀ c ∈ ws, isSpace c = true)
    (hx : extractBracketed x = none) (hy : extractBracketed y = none)
    (hxy : startsPlain x = startsPlain y) :
    tokenise (ws ++ x) = tokenise (ws ++ y) ↔ tokenise x = tokenise y := by
  induction ws with
  | nil => rfl
  | cons c ws ih =>
    have hws' : ∀ d ∈ ws, isSpace d = true := fun d hd => hws d (List.mem_cons_of_mem c hd)
    rw [← ih hws']
    have hc := hws c List.mem_cons_self
    rcases isPlain_of_isSpace hc with rfl | hplain
    · rw [List.cons_append, List.cons_append, tokenise_of_blank, tokenise_of_blank]
    · have hstart : startsPlain (ws ++ x) = startsPlain (ws ++ y) := by
        cases ws with
        | nil => exact hxy
        | cons d ws => rw [startsPlain_append_cons, startsPlain_append_cons]
      have hx' := (extractBracketed_pad hws' x).trans hx
      have hy' := (extractBracketed_pad hws' y).trans hy
      rw [List.cons_append, List.cons_append, tokenise_tab hc hplain hx', tokenise_tab hc hplain hy',
        hstart]
      split_ifs with hplain
      · have hcons : ∀ z, extractBracketed z = none → startsPlain z = true →
            tokenise z = (tokenise z).headD [] :: (tokenise z).tail := by
          intro z hz hzplain
          cases z with
          | nil => cases hzplain
          | cons d z => rw [tokenise_of_plain hz (by simpa [startsPlain] using hzplain)]; rfl
        rw [hcons _ hx' (hstart.trans hplain), hcons _ hy' hplain]
        simp
      · simp

/-- The number of characters in all tokens. -/
def tokenSize (tokens : List (List Char)) : ℕ := (tokens.map List.length).sum

/-- White space in front of a line, other than blanks, is found in its tokens. -/
theorem tokenSize_pad {ws cs : List Char} (hws : ∀ c ∈ ws, isSpace c = true)
    (h : extractBracketed cs = none) :
    tokenSize (tokenise (ws ++ cs)) = ws.countP isPlain + tokenSize (tokenise cs) := by
  induction ws with
  | nil => simp
  | cons c ws ih =>
    have hws' : ∀ d ∈ ws, isSpace d = true := fun d hd => hws d (List.mem_cons_of_mem c hd)
    have hrest := ih hws'
    have hc := hws c List.mem_cons_self
    rcases isPlain_of_isSpace hc with rfl | hplain
    · rw [List.cons_append, tokenise_of_blank, hrest, List.countP_cons_of_neg (by decide)]
    · have hnone := (extractBracketed_pad hws' cs).trans h
      rw [List.cons_append, tokenise_tab hc hplain hnone, List.countP_cons_of_pos hplain]
      split_ifs with hplain
      · cases hz : ws ++ cs with
        | nil => rw [hz] at hplain; cases hplain
        | cons d z =>
          rw [hz] at hnone hplain hrest
          rw [tokenise_of_plain hnone (by simpa [startsPlain] using hplain)] at hrest ⊢
          simp only [tokenSize, List.map_cons, List.sum_cons, List.headD_cons, List.tail_cons,
            List.length_cons] at hrest ⊢
          omega
      · simp only [tokenSize, List.map_cons, List.sum_cons, List.length_singleton] at hrest ⊢
        omega

/-- Blanks in front of a line cut the word that a tab before them would begin. -/
theorem tokenise_blanks_iff {before ws cs : List Char} (hbefore : ∀ c ∈ before, isSpace c = true)
    (hws : ∀ c ∈ ws, c = ' ') (hne : ws ≠ []) (hg : extractBracketed cs = none) :
    tokenise (before ++ (ws ++ cs)) = tokenise (before ++ cs) ↔
      before.getLast?.any isPlain = false ∨ startsPlain cs = false := by
  have hpad : ∀ c ∈ ws, isSpace c = true := fun c hc => by rw [hws c hc]; rfl
  have htok := tokenise_blanks hws cs
  have hws' := (extractBracketed_pad hpad cs).trans hg
  have hstart : startsPlain (ws ++ cs) = false := by
    obtain ⟨c, ws, rfl⟩ := List.exists_cons_of_ne_nil hne
    obtain rfl := hws c List.mem_cons_self
    rfl
  cases hplain : startsPlain cs with
  | false =>
    rw [tokenise_pad_iff hbefore hws' hg (hstart.trans hplain.symm)]
    exact iff_of_true htok (.inr rfl)
  | true =>
    rcases List.eq_nil_or_concat before with rfl | ⟨pre, d, rfl⟩
    · exact iff_of_true htok (.inl (by simp))
    · have hpre : ∀ e ∈ pre, isSpace e = true := fun e he => hbefore e (by simp [he])
      have hd := hbefore d (by simp)
      have hone : ∀ z, extractBracketed z = none → extractBracketed (d :: z) = none := by
        intro z hz
        rw [extractBracketed, List.dropWhile_cons_of_pos hd]
        exact hz
      rw [List.concat_eq_append, List.append_assoc, List.append_assoc, List.singleton_append,
        List.singleton_append, tokenise_pad_iff hpre (hone _ hws') (hone _ hg) rfl]
      rcases isPlain_of_isSpace hd with rfl | hdplain
      · refine iff_of_true ?_ (.inl (by simp [isPlain]))
        rw [tokenise_of_blank, tokenise_of_blank, htok]
      · refine iff_of_false ?_ (by simp [hdplain])
        rw [tokenise_tab hd hdplain hws', tokenise_tab hd hdplain hg, hstart, hplain]
        cases cs with
        | nil => cases hplain
        | cons e cs =>
          rw [tokenise_of_plain hg (by simpa [startsPlain] using hplain)]
          simp

/-- White space `ws` between the white space `before` and the text `cs` does no harm: a group follows,
or `ws` holds no tab and does not cut a word that begins with white space of `before`. -/
def Harmless (before ws cs : List Char) : Prop :=
  (extractBracketed cs).isSome = true ∨
    '\t' ∉ ws ∧ (ws = [] ∨ before.getLast?.any isPlain = false ∨ startsPlain cs = false)

theorem tokenise_padding_iff {before ws cs : List Char} (hbefore : ∀ c ∈ before, isSpace c = true)
    (hws : ∀ c ∈ ws, isPad c = true) :
    tokenise (before ++ (ws ++ cs)) = tokenise (before ++ cs) ↔ Harmless before ws cs := by
  have hspace : ∀ c ∈ ws, isSpace c = true := fun c hc => isSpace_of_isPad (hws c hc)
  cases hg : extractBracketed cs with
  | some p =>
    have hsome : (extractBracketed cs).isSome = true := by rw [hg]; rfl
    have hboth : ∀ c ∈ before ++ ws, isSpace c = true := by
      intro c hc
      exact (List.mem_append.mp hc).elim (hbefore c) (hspace c)
    rw [← List.append_assoc, tokenise_pad_group hboth hsome, tokenise_pad_group hbefore hsome]
    exact iff_of_true rfl (.inl hsome)
  | none =>
    have hnot : ¬ (extractBracketed cs).isSome = true := by simp [hg]
    rw [Harmless, or_iff_right hnot]
    by_cases htab : '\t' ∈ ws
    · -- the tokens hold more characters than before
      refine iff_of_false ?_ (fun h => h.1 htab)
      intro heq
      have hsize := congrArg tokenSize heq
      rw [tokenSize_pad hbefore ((extractBracketed_pad hspace cs).trans hg), tokenSize_pad hbefore hg,
        tokenSize_pad hspace hg] at hsize
      have htabs : 0 < ws.countP isPlain := List.countP_pos_iff.mpr ⟨'\t', htab, by decide⟩
      omega
    · rw [and_iff_right htab]
      by_cases hnil : ws = []
      · rw [hnil]
        exact iff_of_true rfl (.inl rfl)
      · rw [or_iff_right hnil]
        refine tokenise_blanks_iff hbefore (fun c hc => ?_) hnil hg
        have hc' := hws c hc
        simp only [isPad, Bool.or_eq_true, beq_iff_eq] at hc'
        exact hc'.resolve_right fun h => htab (h ▸ hc)

/-! ### Lines that are passed over -/

/-- Blanks and tabs, with or without a comment that does not end in a backslash. -/
def Skippable (l : List Char) : Prop :=
  (∀ c ∈ stripComment l, isPad c = true) ∧ l.getLast? ≠ some '\\'

/-- What lines that are passed over leave in the buffer. -/
def leftBehind (ls : List (List Char)) : List Char := ls.flatMap stripComment

theorem leftBehind_pad {ls : List (List Char)} (h : ∀ l ∈ ls, Skippable l) :
    ∀ c ∈ leftBehind ls, isPad c = true := by
  intro c hc
  obtain ⟨l, hl, hc⟩ := List.mem_flatMap.mp hc
  exact (h l hl).1 c hc

theorem getLast_ne_of_pad {ws : List Char} (h : ∀ c ∈ ws, isSpace c = true) :
    ws.getLast? ≠ some '\\' := by
  intro hlast
  have := h _ (List.mem_of_getLast? hlast)
  revert this
  decide

theorem getLast_pad_append {ws : List Char} (h : ∀ c ∈ ws, isSpace c = true) (cs : List Char) :
    (ws ++ cs).getLast? = some '\\' ↔ cs.getLast? = some '\\' := by
  rcases List.eq_nil_or_concat cs with rfl | ⟨pre, d, rfl⟩
  · rw [List.append_nil]
    exact iff_of_false (getLast_ne_of_pad h) (by simp)
  · simp

theorem stripComment_pad {ws : List Char} (h : ∀ c ∈ ws, isSpace c = true) (cs : List Char) :
    stripComment (ws ++ cs) = ws ++ stripComment cs := by
  refine List.takeWhile_append_of_pos fun c hc => bne_iff_ne.mpr ?_
  rintro rfl
  cases h _ hc

theorem isBlank_pad {ws : List Char} (h : ∀ c ∈ ws, isSpace c = true) (cs : List Char) :
    isBlank (ws ++ cs) = isBlank cs := by
  have hws : ws.all isSpace = true := List.all_eq_true.mpr h
  rw [isBlank, List.all_append, hws, Bool.true_and, isBlank]

/-- White space in the buffer goes through the reader unchanged. -/
theorem readLogical_pad {ws : List Char} (h : ∀ c ∈ ws, isSpace c = true) (line : List Char)
    (ls : List (List Char)) :
    readLogical (ws ++ line) ls = (ws ++ (readLogical line ls).1, (readLogical line ls).2) := by
  induction ls generalizing line with
  | nil => rfl
  | cons l ls ih =>
    simp only [readLogical, List.append_assoc, getLast_pad_append h, stripComment_pad h,
      isBlank_pad h]
    split_ifs with hlast hblank
    · have hne : line ++ l ≠ [] := by
        intro hnil
        rw [hnil] at hlast
        cases hlast
      rw [List.dropLast_append_of_ne_nil hne, ih]
    · rw [ih]
    · rfl

/-- Lines that are passed over leave their white space in the buffer and nothing else. -/
theorem readLogical_skippable {ws : List Char} (h : ∀ c ∈ ws, isSpace c = true)
    {S : List (List Char)} (hS : ∀ l ∈ S, Skippable l) (ls : List (List Char)) :
    readLogical ws (S ++ ls) = readLogical (ws ++ leftBehind S) ls := by
  induction S generalizing ws with
  | nil => simp [leftBehind]
  | cons l S ih =>
    obtain ⟨hpad, hlast⟩ := hS l List.mem_cons_self
    have hboth : ∀ c ∈ ws ++ stripComment l, isSpace c = true := by
      intro c hc
      exact (List.mem_append.mp hc).elim (h c) fun hl => isSpace_of_isPad (hpad c hl)
    have hblank : isBlank (ws ++ stripComment l) = true := List.all_eq_true.mpr hboth
    have hrest := ih hboth fun l hl => hS l (List.mem_cons_of_mem _ hl)
    simp only [List.cons_append, readLogical, getLast_pad_append h, if_neg hlast,
      stripComment_pad h, hblank, if_true, hrest, leftBehind, List.flatMap_cons, List.append_assoc]

/-! ### Whole entries -/

/-- Lines that the reader takes as whole entries, up to the end of the last one. -/
inductive Complete : List (List Char) → Prop where
  | nil : Complete []
  | entry {ls rest : List (List Char)} {line : List Char}
      (hentry : readLogical [] ls = (line, some [])) (hrest : Complete rest) : Complete (ls ++ rest)

theorem readLogical_append {line line' : List Char} {ls rest : List (List Char)}
    (h : readLogical line ls = (line', some rest)) (more : List (List Char)) :
    readLogical line (ls ++ more) = (line', some (rest ++ more)) := by
  induction ls generalizing line with
  | nil => cases h
  | cons l ls ih =>
    simp only [List.cons_append, readLogical] at h ⊢
    split_ifs at h ⊢
    · exact ih h
    · exact ih h
    · cases h
      rfl

/-- Whether two texts read alike is decided after the entries they share. -/
theorem tokenLists_complete {E : List (List Char)} (hE : Complete E) (x y : List (List Char)) :
    tokenLists (E ++ x) = tokenLists (E ++ y) ↔ tokenLists x = tokenLists y := by
  induction hE with
  | nil => rfl
  | @entry ls rest line hentry _ ih =>
    have hread : ∀ z, readTokenisedLine (ls ++ rest ++ z) = (tokenise line, rest ++ z) := by
      intro z
      rw [List.append_assoc, readTokenisedLine, readLogical_append hentry]
      rfl
    rw [tokenLists_eq (ls ++ rest ++ x), tokenLists_eq (ls ++ rest ++ y), hread, hread]
    rw [if_neg (tokenise_ne_nil hentry), if_neg (tokenise_ne_nil hentry), List.cons.injEq, ih]
    exact and_iff_right rfl

/-- The turns of the loop agree exactly if the tokens do. -/
theorem tokenLists_congr {x y : List (List Char)} {line line' : List Char}
    {rest : Option (List (List Char))} (hx : readLogical [] x = (line, rest))
    (hy : readLogical [] y = (line', rest)) :
    tokenLists x = tokenLists y ↔ tokenise line = tokenise line' := by
  rw [tokenLists_eq x, tokenLists_eq y, readTokenisedLine, readTokenisedLine, hx, hy]
  constructor
  · intro h
    split_ifs at h with hnil hnil'
    · exact hnil.trans hnil'.symm
    · exact (List.cons.inj h).1
  · intro h
    simp only [h]

/-- What is in the buffer when the lines end is there when more lines follow. -/
theorem readLogical_pending {line line' : List Char} {ls : List (List Char)}
    (h : readLogical line ls = (line', none)) (more : List (List Char)) :
    readLogical line (ls ++ more) = readLogical line' more := by
  induction ls generalizing line with
  | nil =>
    cases h
    rfl
  | cons l ls ih =>
    simp only [List.cons_append, readLogical] at h ⊢
    split_ifs at h ⊢
    · exact ih h
    · exact ih h
    · cases h

/-- **When lines may be inserted.**  Between whole entries, after lines `S` of which the reader has
nothing but white space `before` in its buffer, lines `B` of blanks, tabs and comments leave the tokens
of all entries and with them the outcome of `parse_config_file` unchanged exactly if the white space
they leave behind is harmless there. -/
theorem tokenLists_insert_iff {E S B : List (List Char)} {before : List Char} (hE : Complete E)
    (hS : readLogical [] S = (before, none)) (hbefore : isBlank before = true)
    (hB : ∀ l ∈ B, Skippable l) (C : List (List Char)) :
    (tokenLists (E ++ (S ++ (B ++ C))) = tokenLists (E ++ (S ++ C)) ∧
      parseConfigFile (E ++ (S ++ (B ++ C))) = parseConfigFile (E ++ (S ++ C))) ↔
    Harmless before (leftBehind B) (readLogical [] C).1 := by
  have hspace : ∀ c ∈ before, isSpace c = true := List.all_eq_true.mp hbefore
  have hBpad := leftBehind_pad hB
  have hboth : ∀ c ∈ before ++ leftBehind B, isSpace c = true := fun c hc =>
    (List.mem_append.mp hc).elim (hspace c) fun hl => isSpace_of_isPad (hBpad c hl)
  have hlong : readLogical [] (S ++ (B ++ C)) =
      (before ++ (leftBehind B ++ (readLogical [] C).1), (readLogical [] C).2) := by
    have hpad := readLogical_pad hboth [] C
    rw [List.append_nil] at hpad
    rw [readLogical_pending hS, readLogical_skippable hspace hB, hpad, List.append_assoc]
  have hshort : readLogical [] (S ++ C) =
      (before ++ (readLogical [] C).1, (readLogical [] C).2) := by
    have hpad := readLogical_pad hspace [] C
    rw [List.append_nil] at hpad
    rw [readLogical_pending hS, hpad]
  have htokens : tokenLists (E ++ (S ++ (B ++ C))) = tokenLists (E ++ (S ++ C)) ↔
      Harmless before (leftBehind B) (readLogical [] C).1 := by
    rw [tokenLists_complete hE, tokenLists_congr hlong hshort, tokenise_padding_iff hspace hBpad]
  rw [← htokens]
  refine ⟨And.left, fun h => ⟨h, ?_⟩⟩
  rw [parseConfigFile, parseConfigFile, h]

/-- A pattern on one line. -/
def addLine : List (List Char) := ["ADD PPC64LE 011111 rt:5 ra:5 rb:5 01000010100".toList]

/-- Another one. -/
def subfLine : List (List Char) := ["SUBF PPC64LE 011111 rt:5 ra:5 rb:5 00001010000".toList]

theorem addLine_complete : Complete addLine := by
  have hread : readLogical [] addLine = (addLine.headD [], some []) := by decide +kernel
  rw [← List.append_nil addLine]
  exact .entry hread .nil

/-- A comment after two blanks may stand between two patterns. -/
theorem tokenLists_insert_comment :
    tokenLists (addLine ++ ([] ++ (["  # Subtract".toList] ++ subfLine))) =
        tokenLists (addLine ++ ([] ++ subfLine)) ∧
      parseConfigFile (addLine ++ ([] ++ (["  # Subtract".toList] ++ subfLine))) =
        parseConfigFile (addLine ++ ([] ++ subfLine)) := by
  have hcomment : ∀ l ∈ ["  # Subtract".toList], Skippable l := by
    simp only [List.mem_singleton, forall_eq]
    exact ⟨List.all_eq_true.mp (by decide), by decide⟩
  exact (tokenLists_insert_iff (S := []) addLine_complete rfl rfl hcomment subfLine).mpr
    (.inr ⟨by decide, .inr (.inl (by decide))⟩)

/-- With a line that holds a tab between them, the second pattern is rejected. -/
theorem tab_line_changes :
    tokenLists (addLine ++ ([['\t']] ++ subfLine)) ≠ tokenLists (addLine ++ subfLine) ∧
      (parseConfigFile (addLine ++ ([['\t']] ++ subfLine))).toOption.isSome = false ∧
      (parseConfigFile (addLine ++ subfLine)).toOption.isSome = true := by
  refine ⟨?_, ?_, ?_⟩
  · decide +kernel
  · decide +kernel
  · decide +kernel

end Risu.Gen
