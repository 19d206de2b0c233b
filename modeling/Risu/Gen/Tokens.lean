import Risu.Gen.Perl

/-!
# Tokenised lines (`read_tokenised_line`)

A file is the list of its physical lines, each without its newline.  The reader gathers physical lines
in one buffer until the buffer is a logical line, and cuts that into tokens with `extract_multiple`
from `Text::Balanced`.

* `extractBracketed` — `extract_bracketed` for braces: white space, then a balanced group;
* `extractNext` — what `extract_multiple` finds at one position;
* `tokenise`, `tokenise_eq` — the tokens of a line, and the equation of the loop; `tokenise_induct` —
  induction along its turns;
* `readLogical`, `readTokenisedLine` — the reader;
* `tokenLists` — all calls of the reader until one returns nothing.
-/

namespace Risu.Gen

/-! ### Balanced groups -/

/-- The rest of a group after its opening brace, with `d` further braces open: up to the brace that
closes it.  A backslash takes the next character with it. -/
def closeGroup : ℕ → List Char → Option (List Char × List Char)
  | _, [] => none
  | d, '\\' :: c :: cs => (closeGroup d cs).map fun (g, rest) => ('\\' :: c :: g, rest)
  | d, '{' :: cs => (closeGroup (d + 1) cs).map fun (g, rest) => ('{' :: g, rest)
  | 0, '}' :: cs => some (['}'], cs)
  | d + 1, '}' :: cs => (closeGroup d cs).map fun (g, rest) => ('}' :: g, rest)
  | d, c :: cs => (closeGroup d cs).map fun (g, rest) => (c :: g, rest)

/-- The group at the start of the text and what follows it. -/
def openGroup : List Char → Option (List Char × List Char)
  | '{' :: cs => (closeGroup 0 cs).map fun (g, rest) => ('{' :: g, rest)
  | _ => none

def extractBracketed (cs : List Char) : Option (List Char × List Char) :=
  openGroup (cs.dropWhile isSpace)

/-! ### Tokens -/

def isBrace (c : Char) : Bool := c == '{' || c == '}'

/-- `[^{} ]` -/
def isPlain (c : Char) : Bool := !isBrace c && c != ' '

/-- What is found at one position, and the text after it: a group, a run of characters other than
braces and blanks, or a run of braces.  Failing all three a character is passed over. -/
def extractNext (cs : List Char) : Option (List Char) × List Char :=
  match extractBracketed cs with
  | some (group, rest) => (some group, rest)
  | none =>
    if cs.takeWhile isPlain ≠ [] then (some (cs.takeWhile isPlain), cs.dropWhile isPlain)
    else if cs.takeWhile isBrace ≠ [] then (some (cs.takeWhile isBrace), cs.dropWhile isBrace)
    else (none, cs.tail)

/-- The loop of `extract_multiple`; every turn takes at least one character. -/
def extractMultiple : ℕ → List Char → List (List Char)
  | 0, _ => []
  | _ + 1, [] => []
  | fuel + 1, c :: cs =>
    (extractNext (c :: cs)).1.toList ++ extractMultiple fuel (extractNext (c :: cs)).2

def tokenise (line : List Char) : List (List Char) := extractMultiple line.length line

theorem closeGroup_append {d : ℕ} {cs g rest : List Char} (h : closeGroup d cs = some (g, rest)) :
    cs = g ++ rest := by
  fun_induction closeGroup d cs generalizing g rest with
  | case1 => cases h
  | case4 => cases h; rfl
  | case2 _ _ _ ih | case3 _ _ ih | case5 _ _ ih | case6 _ _ _ _ _ _ _ ih =>
    simp only [Option.map_eq_some_iff, Prod.mk.injEq, Prod.exists] at h
    obtain ⟨g', rest', h', rfl, rfl⟩ := h
    simp [ih h']

theorem openGroup_append {cs g rest : List Char} (h : openGroup cs = some (g, rest)) :
    cs = g ++ rest ∧ g ≠ [] := by
  unfold openGroup at h
  split at h
  · simp only [Option.map_eq_some_iff, Prod.mk.injEq, Prod.exists] at h
    obtain ⟨g', rest', h', rfl, rfl⟩ := h
    simp [closeGroup_append h']
  · cases h

theorem extractBracketed_length {cs g rest : List Char} (h : extractBracketed cs = some (g, rest)) :
    rest.length < cs.length := by
  obtain ⟨happ, hne⟩ := openGroup_append h
  have hlen := (List.dropWhile_suffix (l := cs) isSpace).length_le
  have hpos := List.length_pos_iff.mpr hne
  rw [happ, List.length_append] at hlen
  omega

theorem length_dropWhile_lt {p : Char → Bool} {cs : List Char} (h : cs.takeWhile p ≠ []) :
    (cs.dropWhile p).length < cs.length := by
  have hsplit := congrArg List.length (List.takeWhile_append_dropWhile (p := p) (l := cs))
  have hpos := List.length_pos_iff.mpr h
  rw [List.length_append] at hsplit
  omega

theorem extractNext_length (c : Char) (cs : List Char) :
    (extractNext (c :: cs)).2.length < (c :: cs).length := by
  unfold extractNext
  split
  · rename_i h
    exact extractBracketed_length h
  · split_ifs with hplain hbrace
    · exact length_dropWhile_lt hplain
    · exact length_dropWhile_lt hbrace
    · simp

/-- Fuel beyond the length of the text changes nothing. -/
theorem extractMultiple_fuel {n m : ℕ} {cs : List Char} (hn : cs.length ≤ n) (hm : cs.length ≤ m) :
    extractMultiple n cs = extractMultiple m cs := by
  induction n generalizing m cs with
  | zero =>
    obtain rfl := List.length_eq_zero_iff.mp (Nat.le_zero.mp hn)
    cases m <;> rfl
  | succ n ih =>
    cases cs with
    | nil => cases m <;> rfl
    | cons c cs =>
      have hlt := extractNext_length c cs
      obtain ⟨m, rfl⟩ : ∃ k, m = k + 1 := ⟨m - 1, by simp only [List.length_cons] at hm; omega⟩
      rw [extractMultiple, extractMultiple, ih (m := m) (by omega) (by omega)]

@[simp] theorem tokenise_nil : tokenise [] = [] := rfl

/-- The loop of `extract_multiple`, one turn. -/
theorem tokenise_eq (c : Char) (cs : List Char) :
    tokenise (c :: cs) = (extractNext (c :: cs)).1.toList ++ tokenise (extractNext (c :: cs)).2 := by
  have hlt := extractNext_length c cs
  rw [tokenise, List.length_cons, extractMultiple,
    extractMultiple_fuel (by simpa using Nat.lt_succ_iff.mp hlt) le_rfl]
  rfl

theorem tokenise_of_group {cs g rest : List Char} (h : extractBracketed cs = some (g, rest)) :
    tokenise cs = g :: tokenise rest := by
  cases cs with
  | nil => cases h
  | cons c cs => rw [tokenise_eq, extractNext, h]; rfl

theorem tokenise_of_plain {c : Char} {cs : List Char} (h : extractBracketed (c :: cs) = none)
    (hc : isPlain c = true) :
    tokenise (c :: cs) = (c :: cs.takeWhile isPlain) :: tokenise (cs.dropWhile isPlain) := by
  rw [tokenise_eq, extractNext, h]
  simp [hc]

theorem tokenise_of_brace {c : Char} {cs : List Char} (h : extractBracketed (c :: cs) = none)
    (hc : isBrace c = true) :
    tokenise (c :: cs) = (c :: cs.takeWhile isBrace) :: tokenise (cs.dropWhile isBrace) := by
  have hplain : isPlain c = false := by simp [isPlain, hc]
  rw [tokenise_eq, extractNext, h]
  simp [hc, hplain]

theorem tokenise_of_blank {cs : List Char} : tokenise (' ' :: cs) = tokenise cs := by
  have hskip : extractBracketed (' ' :: cs) = extractBracketed cs := rfl
  cases h : extractBracketed cs with
  | some p => rw [tokenise_of_group (hskip.trans h), tokenise_of_group h]
  | none =>
    rw [tokenise_eq, extractNext, hskip, h]
    rfl

theorem isBlank_of_not_plain_brace {c : Char} (hplain : isPlain c = false)
    (hbrace : isBrace c = false) : c = ' ' := by
  simpa [isPlain, hbrace] using hplain

/-- Induction along the turns of the loop. -/
theorem tokenise_induct {P : List Char → Prop} (nil : P [])
    (group : ∀ cs g rest, extractBracketed cs = some (g, rest) → P rest → P cs)
    (plain : ∀ c cs, extractBracketed (c :: cs) = none → isPlain c = true →
      P (cs.dropWhile isPlain) → P (c :: cs))
    (brace : ∀ c cs, extractBracketed (c :: cs) = none → isBrace c = true →
      P (cs.dropWhile isBrace) → P (c :: cs))
    (blank : ∀ cs, P cs → P (' ' :: cs)) (cs : List Char) : P cs := by
  induction hn : cs.length using Nat.strong_induction_on generalizing cs with
  | _ n ih =>
    subst hn
    cases cs with
    | nil => exact nil
    | cons c cs =>
      have hdrop : ∀ p : Char → Bool, (cs.dropWhile p).length < (c :: cs).length := fun p =>
        Nat.lt_succ_of_le (List.dropWhile_suffix p).length_le
      cases hg : extractBracketed (c :: cs) with
      | some p => exact group _ _ _ hg (ih _ (extractBracketed_length hg) _ rfl)
      | none =>
        cases hplain : isPlain c with
        | true => exact plain c cs hg hplain (ih _ (hdrop isPlain) _ rfl)
        | false =>
          cases hbrace : isBrace c with
          | true => exact brace c cs hg hbrace (ih _ (hdrop isBrace) _ rfl)
          | false =>
            obtain rfl := isBlank_of_not_plain_brace hplain hbrace
            exact blank cs (ih _ (Nat.lt_succ_self _) _ rfl)

/-- Only blanks give no tokens. -/
theorem tokenise_eq_nil {cs : List Char} (h : tokenise cs = []) : ∀ c ∈ cs, c = ' ' := by
  induction cs using tokenise_induct with
  | nil => simp
  | group cs g rest hg => rw [tokenise_of_group hg] at h; cases h
  | plain c cs hg hc => rw [tokenise_of_plain hg hc] at h; cases h
  | brace c cs hg hc => rw [tokenise_of_brace hg hc] at h; cases h
  | blank cs ih =>
    rw [tokenise_of_blank] at h
    exact List.forall_mem_cons.mpr ⟨rfl, ih h⟩

/-! ### Logical lines -/

/-- `s/#.*$//` -/
def stripComment (line : List Char) : List Char := line.takeWhile (· != '#')

/-- `/^\s*$/` -/
def isBlank (line : List Char) : Bool := line.all isSpace

/-- The loop over physical lines: the logical line, and the lines after it unless the file has ended.
A line that ends in a backslash, or of which nothing is left, stays in the buffer. -/
def readLogical : List Char → List (List Char) → List Char × Option (List (List Char))
  | line, [] => (line, none)
  | line, l :: ls =>
    let line := line ++ l
    if line.getLast? = some '\\' then readLogical line.dropLast ls
    else if isBlank (stripComment line) then readLogical (stripComment line) ls
    else (stripComment line, some ls)

def readTokenisedLine (ls : List (List Char)) : List (List Char) × List (List Char) :=
  (tokenise (readLogical [] ls).1, (readLogical [] ls).2.getD [])

/-- The calls of the reader until one returns no tokens; `fuel` bounds their number. -/
def tokenListsFuel : ℕ → List (List Char) → List (List (List Char))
  | 0, _ => []
  | fuel + 1, ls =>
    match readTokenisedLine ls with
    | ([], _) => []
    | (t :: ts, rest) => (t :: ts) :: tokenListsFuel fuel rest

/-- Every call but the last takes at least one physical line. -/
def tokenLists (ls : List (List Char)) : List (List (List Char)) := tokenListsFuel (ls.length + 1) ls

theorem readLogical_length {line line' : List Char} {ls rest : List (List Char)}
    (h : readLogical line ls = (line', some rest)) : rest.length < ls.length := by
  induction ls generalizing line with
  | nil => cases h
  | cons l ls ih =>
    simp only [readLogical] at h
    split_ifs at h
    · exact (ih h).trans (Nat.lt_succ_self _)
    · exact (ih h).trans (Nat.lt_succ_self _)
    · cases h
      exact Nat.lt_succ_self _

theorem readLogical_not_blank {line line' : List Char} {ls rest : List (List Char)}
    (h : readLogical line ls = (line', some rest)) : isBlank line' = false := by
  induction ls generalizing line with
  | nil => cases h
  | cons l ls ih =>
    simp only [readLogical] at h
    split_ifs at h with hlast hblank
    · exact ih h
    · exact ih h
    · cases h
      simpa using hblank

/-- A logical line before the end of the file has tokens. -/
theorem tokenise_ne_nil {line line' : List Char} {ls rest : List (List Char)}
    (h : readLogical line ls = (line', some rest)) : tokenise line' ≠ [] := by
  intro hnil
  have hblank : isBlank line' = true :=
    List.all_eq_true.mpr fun c hc => by rw [tokenise_eq_nil hnil c hc]; rfl
  rw [readLogical_not_blank h] at hblank
  cases hblank

theorem readTokenisedLine_length {ls : List (List Char)} (h : (readTokenisedLine ls).1 ≠ []) :
    (readTokenisedLine ls).2.length < ls.length := by
  cases ls with
  | nil => exact absurd rfl h
  | cons l ls =>
    simp only [readTokenisedLine]
    cases hrest : (readLogical [] (l :: ls)).2 with
    | none => simp
    | some rest => exact readLogical_length (Prod.ext rfl hrest)

theorem tokenListsFuel_eq {n m : ℕ} {ls : List (List Char)} (hn : ls.length < n)
    (hm : ls.length < m) : tokenListsFuel n ls = tokenListsFuel m ls := by
  induction n generalizing m ls with
  | zero => omega
  | succ n ih =>
    obtain ⟨m, rfl⟩ : ∃ k, m = k + 1 := ⟨m - 1, by omega⟩
    rw [tokenListsFuel, tokenListsFuel]
    split
    · rfl
    · rename_i t ts rest hread
      have hne : (readTokenisedLine ls).1 ≠ [] := by rw [hread]; simp
      have hlt := readTokenisedLine_length hne
      rw [hread] at hlt
      simp only at hlt
      rw [ih (m := m) (by omega) (by omega)]

/-- The loop of `parse_config_file` over the reader, one turn. -/
theorem tokenLists_eq (ls : List (List Char)) :
    tokenLists ls =
      if (readTokenisedLine ls).1 = [] then []
      else (readTokenisedLine ls).1 :: tokenLists (readTokenisedLine ls).2 := by
  rw [tokenLists, tokenListsFuel]
  split
  · rename_i hread
    rw [hread]
    rfl
  · rename_i t ts rest hread
    have hne : (readTokenisedLine ls).1 ≠ [] := by rw [hread]; simp
    have hlt := readTokenisedLine_length hne
    rw [hread] at hlt ⊢
    simp only [reduceCtorEq, if_false] at hlt ⊢
    rw [tokenLists, tokenListsFuel_eq hlt (Nat.lt_succ_self _)]

end Risu.Gen
