import Risu.Gen.Config

/-!
# Selection by groups (`evaluate_groups`, `select_insn_keys`)

The expression given with `--group` is rewritten into Perl: commas become `&&`, each name becomes the
number of times it is in the list of groups, and the result is evaluated.

* `substNames`, `rewriteExpr` — the rewriting of the text;
* `perlLex`, `perlExpr`, `evalPerl` — numbers, `!`, `&&`, `||` and parentheses as Perl reads them;
* `keepsGroups` — the test of `select_insn_keys`;
* `Expr`, `Derives`, `Renders` — group expressions, their tokens by precedence, and their texts;
* `evaluateGroups_eq`, `selectByGroups_iff` — the code against the Boolean meaning of expressions.
-/

namespace Risu.Gen

/-! ### Rewriting -/

/-- `[-:.*\w]` -/
def isNameChar (c : Char) : Bool := isWord c || c == '-' || c == ':' || c == '.' || c == '*'

/-- `[_A-Za-z]` -/
def isNameStart (c : Char) : Bool := isAlpha c || c == '_'

/-- `grep(/^name$/, @$insn_groups)`, for a name that holds no pattern characters. -/
def grepCount (groups : List (List Char)) (name : List Char) : ℕ := groups.count name

/-- Where the substitution stands: outside a name, after a word character or not, or inside one. -/
inductive NameState where
  | outside (word : Bool)
  | inside (name : List Char)

/-- `s|(\b[_A-Za-z][-:.*\w]*)|grep(/^$1$/, @$insn_groups)|eg` -/
def substNames (groups : List (List Char)) : NameState → List Char → List Char
  | .outside _, [] => []
  | .outside word, c :: cs =>
    if isNameStart c && !word then substNames groups (.inside [c]) cs
    else c :: substNames groups (.outside (isWord c)) cs
  | .inside name, [] => Nat.toDigits 10 (grepCount groups name)
  | .inside name, c :: cs =>
    if isNameChar c then substNames groups (.inside (name ++ [c])) cs
    else Nat.toDigits 10 (grepCount groups name) ++ c :: substNames groups (.outside (isWord c)) cs

/-- `s|,| && |g` -/
def replaceCommas (text : List Char) : List Char :=
  text.flatMap fun c => if c = ',' then " && ".toList else [c]

/-- The Perl text for an expression. -/
def rewriteExpr (groups : List (List Char)) (groupexpr : List Char) : List Char :=
  substNames groups (.outside false)
    ("( ".toList ++ replaceCommas groupexpr ++ " ) && ! Skip".toList)

/-! ### Perl expressions -/

inductive PerlTok where
  | num (n : ℕ)
  | lparen
  | rparen
  | bang
  | and
  | or
  deriving DecidableEq

/-- The number read so far, as a token. -/
def numTok (num : Option ℕ) : List PerlTok := num.toList.map .num

/-- The tokens of a text; `none` if it holds anything else. -/
def perlLex : Option ℕ → List Char → Option (List PerlTok)
  | num, [] => some (numTok num)
  | num, '(' :: cs => (perlLex none cs).map fun ts => numTok num ++ .lparen :: ts
  | num, ')' :: cs => (perlLex none cs).map fun ts => numTok num ++ .rparen :: ts
  | num, '!' :: cs => (perlLex none cs).map fun ts => numTok num ++ .bang :: ts
  | num, '&' :: '&' :: cs => (perlLex none cs).map fun ts => numTok num ++ .and :: ts
  | num, '|' :: '|' :: cs => (perlLex none cs).map fun ts => numTok num ++ .or :: ts
  | num, c :: cs =>
    if isDigit c then perlLex (some (10 * num.getD 0 + (c.toNat - '0'.toNat))) cs
    else if isSpace c then (perlLex none cs).map fun ts => numTok num ++ ts
    else none

/-- Levels of precedence, the tightest first. -/
inductive Level where
  | atom
  | not
  | and
  | or

/-- An expression of a level at the start of the tokens: whether it is true, and what follows. -/
def perlExpr : ℕ → Level → List PerlTok → Option (Bool × List PerlTok)
  | 0, _, _ => none
  | fuel + 1, .atom, ts =>
    match ts with
    | .num n :: ts => some (n != 0, ts)
    | .lparen :: ts =>
      match perlExpr fuel .or ts with
      | some (v, .rparen :: ts) => some (v, ts)
      | _ => none
    | _ => none
  | fuel + 1, .not, ts =>
    match ts with
    | .bang :: ts => (perlExpr fuel .not ts).map fun (v, rest) => (!v, rest)
    | ts => perlExpr fuel .atom ts
  | fuel + 1, .and, ts =>
    match perlExpr fuel .not ts with
    | some (v, .and :: ts) => (perlExpr fuel .and ts).map fun (u, rest) => (v && u, rest)
    | result => result
  | fuel + 1, .or, ts =>
    match perlExpr fuel .and ts with
    | some (v, .or :: ts) => (perlExpr fuel .or ts).map fun (u, rest) => (v || u, rest)
    | result => result

/-- `eval`, as a truth value; a text that is no expression is false. -/
def evalPerl (text : List Char) : Bool :=
  match perlLex none text with
  | none => false
  | some ts =>
    match perlExpr (4 * ts.length + 4) .or ts with
    | some (v, []) => v
    | _ => false

def evaluateGroups (groups : List (List Char)) (groupexpr : List Char) : Bool :=
  evalPerl (rewriteExpr groups groupexpr)

/-- The test that `select_insn_keys` makes for a record if an expression is given. -/
def keepsGroups (groupexpr : List Char) (r : Insnrec) : Bool :=
  match r.groups with
  | none => false
  | some groups => evaluateGroups groups groupexpr

/-- `select_insn_keys`, the limitation by groups; an empty expression or `0` counts as none. -/
def selectByGroups (groupexpr : List Char) (details : List Insnrec) : List Insnrec :=
  if groupexpr = [] ∨ groupexpr = ['0'] then details else details.filter (keepsGroups groupexpr)

/-! ### Group expressions -/

inductive GroupTok where
  | name (n : List Char)
  | lparen
  | rparen
  | bang
  | and
  | comma
  | or

inductive Expr where
  | name (n : List Char)
  | not (e : Expr)
  | both (e₁ e₂ : Expr)
  | either (e₁ e₂ : Expr)

/-- The meaning of an expression, with each name read as membership. -/
def Expr.holds (groups : List (List Char)) : Expr → Bool
  | name n => groups.contains n
  | not e => !e.holds groups
  | both e₁ e₂ => e₁.holds groups && e₂.holds groups
  | either e₁ e₂ => e₁.holds groups || e₂.holds groups

/-- The tokens of an expression by precedence: `!`, then `&&` and commas, then `||`. -/
inductive Derives : Level → List GroupTok → Expr → Prop where
  | name (n : List Char) : Derives .atom [.name n] (.name n)
  | paren {ts : List GroupTok} {e : Expr} : Derives .or ts e →
      Derives .atom (.lparen :: ts ++ [.rparen]) e
  | atom {ts : List GroupTok} {e : Expr} : Derives .atom ts e → Derives .not ts e
  | not {ts : List GroupTok} {e : Expr} : Derives .not ts e → Derives .not (.bang :: ts) (.not e)
  | neg {ts : List GroupTok} {e : Expr} : Derives .not ts e → Derives .and ts e
  | and {ts us : List GroupTok} {e₁ e₂ : Expr} : Derives .not ts e₁ → Derives .and us e₂ →
      Derives .and (ts ++ .and :: us) (.both e₁ e₂)
  | comma {ts us : List GroupTok} {e₁ e₂ : Expr} : Derives .not ts e₁ → Derives .and us e₂ →
      Derives .and (ts ++ .comma :: us) (.both e₁ e₂)
  | conj {ts : List GroupTok} {e : Expr} : Derives .and ts e → Derives .or ts e
  | or {ts us : List GroupTok} {e₁ e₂ : Expr} : Derives .and ts e₁ → Derives .or us e₂ →
      Derives .or (ts ++ .or :: us) (.either e₁ e₂)

/-- A plain name: `[_A-Za-z][-:\w]*`. -/
def isPlainName (n : List Char) : Bool :=
  n.head?.any isNameStart && n.all fun c => isWord c || c == '-' || c == ':'

/-- A text with the given tokens, with any white space between them; a name ends where no further
character can belong to it. -/
inductive Renders : List GroupTok → List Char → Prop where
  | nil : Renders [] []
  | space {ts : List GroupTok} {s : List Char} {c : Char} :
      isSpace c = true → Renders ts s → Renders ts (c :: s)
  | name {ts : List GroupTok} {s n : List Char} : isPlainName n = true →
      s.head?.any isNameChar = false → Renders ts s → Renders (.name n :: ts) (n ++ s)
  | lparen {ts : List GroupTok} {s : List Char} : Renders ts s → Renders (.lparen :: ts) ('(' :: s)
  | rparen {ts : List GroupTok} {s : List Char} : Renders ts s → Renders (.rparen :: ts) (')' :: s)
  | bang {ts : List GroupTok} {s : List Char} : Renders ts s → Renders (.bang :: ts) ('!' :: s)
  | and {ts : List GroupTok} {s : List Char} : Renders ts s → Renders (.and :: ts) ('&' :: '&' :: s)
  | comma {ts : List GroupTok} {s : List Char} : Renders ts s → Renders (.comma :: ts) (',' :: s)
  | or {ts : List GroupTok} {s : List Char} : Renders ts s → Renders (.or :: ts) ('|' :: '|' :: s)

/-! ### The rewritten text -/

section text

variable {groups : List (List Char)}

/-- What a token becomes. -/
def perlTok (groups : List (List Char)) : GroupTok → PerlTok
  | .name n => .num (grepCount groups n)
  | .lparen => .lparen
  | .rparen => .rparen
  | .bang => .bang
  | .and => .and
  | .comma => .and
  | .or => .or

theorem isNameChar_of_isWord {c : Char} (h : isWord c = true) : isNameChar c = true := by
  simp [isNameChar, h]

theorem isNameChar_of_isNameStart {c : Char} (h : isNameStart c = true) : isNameChar c = true := by
  apply isNameChar_of_isWord
  simp only [isNameStart, Bool.or_eq_true, beq_iff_eq] at h
  rcases h with h | rfl
  · simp [isWord, isAlnum, h]
  · rfl

/-- A character that is part of no name is copied. -/
theorem substNames_copy {c : Char} (h : isNameChar c = false) (word : Bool) (cs : List Char) :
    substNames groups (.outside word) (c :: cs) = c :: substNames groups (.outside false) cs := by
  have hstart : isNameStart c = false := by
    by_contra hs
    rw [isNameChar_of_isNameStart (by simpa using hs)] at h
    cases h
  have hword : isWord c = false := by
    by_contra hw
    rw [isNameChar_of_isWord (by simpa using hw)] at h
    cases h
  rw [substNames, hstart, hword]
  rfl

/-- A name is taken up to its end. -/
theorem substNames_inside {n rest : List Char} (hn : ∀ c ∈ n, isNameChar c = true)
    (hrest : rest.head?.any isNameChar = false) (name : List Char) :
    substNames groups (.inside name) (n ++ rest) =
      Nat.toDigits 10 (grepCount groups (name ++ n)) ++
        substNames groups (.outside true) rest := by
  induction n generalizing name with
  | nil =>
    rw [List.nil_append, List.append_nil]
    cases rest with
    | nil => simp [substNames]
    | cons d rest =>
      have hd : isNameChar d = false := by simpa using hrest
      have hw : isWord d = false := by
        by_contra hw
        rw [isNameChar_of_isWord (by simpa using hw)] at hd
        cases hd
      rw [substNames_copy hd, substNames, hd, hw]
      rfl
  | cons c n ih =>
    have hc := hn c List.mem_cons_self
    rw [List.cons_append, substNames, if_pos hc, ih fun d hd => hn d (List.mem_cons_of_mem c hd),
      List.append_assoc]
    rfl

theorem replaceCommas_cons {c : Char} (h : c ≠ ',') (cs : List Char) :
    replaceCommas (c :: cs) = c :: replaceCommas cs := by
  simp [replaceCommas, h]

theorem replaceCommas_append (s t : List Char) :
    replaceCommas (s ++ t) = replaceCommas s ++ replaceCommas t := by
  simp [replaceCommas]

theorem replaceCommas_plain {n : List Char} (h : ∀ c ∈ n, isNameChar c = true) :
    replaceCommas n = n := by
  induction n with
  | nil => rfl
  | cons c n ih =>
    have hc := h c List.mem_cons_self
    rw [replaceCommas_cons (by rintro rfl; cases hc), ih fun d hd => h d (List.mem_cons_of_mem c hd)]

/-- Replacing commas puts no name character at the front. -/
theorem replaceCommas_head {s : List Char} (h : s.head?.any isNameChar = false) :
    (replaceCommas s).head?.any isNameChar = false := by
  cases s with
  | nil => rfl
  | cons c s =>
    by_cases hc : c = ','
    · rw [hc]
      rfl
    · rw [replaceCommas_cons hc]
      exact h

theorem plainName_chars {n : List Char} (h : isPlainName n = true) :
    ∀ c ∈ n, isNameChar c = true := by
  intro c hc
  simp only [isPlainName, Bool.and_eq_true, List.all_eq_true] at h
  have := h.2 c hc
  simp only [Bool.or_eq_true] at this
  rcases this with (hw | hd) | hd
  · exact isNameChar_of_isWord hw
  · simp [isNameChar, hd]
  · simp [isNameChar, hd]

theorem perlLex_digits (ds s : List Char) (hds : ∀ c ∈ ds, isDigit c = true) (num : Option ℕ)
    (hne : ds ≠ []) :
    perlLex num (ds ++ s) =
      perlLex (some (ds.foldl (fun v c => 10 * v + (c.toNat - '0'.toNat)) (num.getD 0))) s := by
  induction ds generalizing num with
  | nil => exact absurd rfl hne
  | cons d ds ih =>
    have hd := hds d List.mem_cons_self
    have hstep : perlLex num (d :: (ds ++ s)) =
        perlLex (some (10 * num.getD 0 + (d.toNat - '0'.toNat))) (ds ++ s) := by
      rw [perlLex, if_pos hd]
      · rintro rfl; cases hd
      · rintro rfl; cases hd
      · rintro rfl; cases hd
      · intro cs h; rw [h] at hd; cases hd
      · intro cs h; rw [h] at hd; cases hd
    rw [List.cons_append, hstep, List.foldl_cons]
    cases ds with
    | nil => rfl
    | cons e ds => exact ih (fun c hc => hds c (List.mem_cons_of_mem d hc)) _ (by simp)

/-- A number ends where no digit follows. -/
theorem perlLex_num {s : List Char} (h : s.head?.any isDigit = false) (num : Option ℕ) :
    perlLex num s = (perlLex none s).map fun ts => numTok num ++ ts := by
  fun_cases perlLex num s with
  | case1 => simp [perlLex, numTok]
  | case2 | case3 | case4 | case5 | case6 =>
    simp only [perlLex, Option.map_map]
    rfl
  | case7 num c cs h₁ h₂ h₃ h₄ h₅ hdigit => simp [hdigit] at h
  | case8 num c cs h₁ h₂ h₃ h₄ h₅ hdigit hspace =>
    rw [perlLex]
    · rw [if_neg hdigit, if_pos hspace, Option.map_map]
      rfl
    all_goals assumption
  | case9 num c cs h₁ h₂ h₃ h₄ h₅ hdigit hspace =>
    rw [perlLex]
    · rw [if_neg hdigit, if_neg hspace]
      rfl
    all_goals assumption

theorem isDigit_of_mem_toDigits {c : Char} {n : ℕ} (h : c ∈ Nat.toDigits 10 n) :
    isDigit c = true := by
  have := Nat.isDigit_of_mem_toDigits (by decide) (by decide) h
  simpa [isDigit, Char.isDigit, Char.le_def] using this

/-- The count that stands for a name is read as a number. -/
theorem perlLex_count {s : List Char} (h : s.head?.any isDigit = false) (n : ℕ) :
    perlLex none (Nat.toDigits 10 n ++ s) = (perlLex none s).map fun ts => .num n :: ts := by
  have hvalue : (Nat.toDigits 10 n).foldl (fun v c => 10 * v + (c.toNat - '0'.toNat)) 0 = n :=
    Nat.ofDigitChars_ten_toDigits
  rw [perlLex_digits _ _ (fun c hc => isDigit_of_mem_toDigits hc) _ Nat.toDigits_ne_nil,
    Option.getD_none, hvalue, perlLex_num h]
  rfl

theorem head_substNames {s : List Char} (h : s.head?.any isNameChar = false) :
    (substNames groups (.outside true) s).head?.any isDigit = false := by
  cases s with
  | nil => rfl
  | cons c s =>
    have hc : isNameChar c = false := by simpa using h
    rw [substNames_copy hc, List.head?_cons, Option.any_some]
    by_contra hd
    rw [isNameChar_of_isWord (by simp [isWord, isAlnum, Bool.not_eq_false _ ▸ hd])] at hc
    cases hc

theorem perlLex_space {c : Char} (h : isSpace c = true) (cs : List Char) :
    perlLex none (c :: cs) = perlLex none cs := by
  simp only [isSpace, Bool.or_eq_true, beq_iff_eq] at h
  have hid : ∀ o : Option (List PerlTok), (o.map fun ts => numTok none ++ ts) = o := by
    intro o
    cases o <;> rfl
  rcases h with ((((rfl | rfl) | rfl) | rfl) | rfl) | rfl <;> exact hid _

theorem isNameChar_of_isSpace {c : Char} (h : isSpace c = true) : isNameChar c = false := by
  simp only [isSpace, Bool.or_eq_true, beq_iff_eq] at h
  rcases h with ((((rfl | rfl) | rfl) | rfl) | rfl) | rfl <;> rfl

/-- **The rewritten text has the rewritten tokens.** -/
theorem perlLex_rewrite {ts : List GroupTok} {s : List Char} (h : Renders ts s) {word : Bool}
    (hword : word = true → s.head?.any isNameChar = false) :
    perlLex none (substNames groups (.outside word) (replaceCommas s)) =
      some (ts.map (perlTok groups)) := by
  induction h generalizing word with
  | nil => rfl
  | @space ts s c hc _ ih =>
    have hname := isNameChar_of_isSpace hc
    rw [replaceCommas_cons (by rintro rfl; cases hc), substNames_copy hname, perlLex_space hc,
      ih (by simp)]
  | @name ts s n hn hs _ ih =>
    have hchars := plainName_chars hn
    cases n with
    | nil => cases hn
    | cons c n =>
      have hstart : isNameStart c = true := by
        simp only [isPlainName, Bool.and_eq_true] at hn
        simpa using hn.1
      have hfalse : word = false := by
        by_contra hw
        have := hword (by simpa using hw)
        simp [isNameChar_of_isNameStart hstart] at this
      have hhead := replaceCommas_head hs
      rw [hfalse, replaceCommas_append, replaceCommas_plain hchars, List.cons_append, substNames,
        hstart]
      simp only [Bool.not_false, Bool.and_self, if_true]
      rw [substNames_inside (fun d hd => hchars d (List.mem_cons_of_mem c hd)) hhead,
        perlLex_count (head_substNames hhead), ih fun _ => hs]
      rfl
  | lparen _ ih | rparen _ ih | bang _ ih =>
    rw [replaceCommas_cons (by decide), substNames_copy (by decide), perlLex, ih (by simp)]
    rfl
  | and _ ih | or _ ih =>
    rw [replaceCommas_cons (by decide), replaceCommas_cons (by decide), substNames_copy (by decide),
      substNames_copy (by decide), perlLex, ih (by simp)]
    rfl
  | @comma ts s _ ih =>
    have hcomma : replaceCommas (',' :: s) = ' ' :: '&' :: '&' :: ' ' :: replaceCommas s := rfl
    rw [hcomma, substNames_copy (by decide), substNames_copy (by decide),
      substNames_copy (by decide), substNames_copy (by decide), perlLex_space (by decide), perlLex,
      perlLex_space (by decide), ih (by simp)]
    rfl

end text

/-! ### Reading the tokens -/

section parse

variable {groups : List (List Char)}

def Level.rank : Level → ℕ
  | atom => 0
  | not => 1
  | and => 2
  | or => 3

/-- What cannot follow an expression of a level, for it would still belong to it. -/
def Level.endsAt : Level → List PerlTok → Prop
  | and, rest => rest.head? ≠ some .and
  | or, rest => rest.head? ≠ some .and ∧ rest.head? ≠ some .or
  | _, _ => True

theorem Derives.length_pos {l : Level} {ts : List GroupTok} {e : Expr} (h : Derives l ts e) :
    0 < ts.length := by
  induction h with
  | name => simp
  | paren | not => simp
  | atom _ ih | neg _ ih | conj _ ih => exact ih
  | and | comma | or => simp

/-- An expression without `!` in front is an atom. -/
theorem perlExpr_not_atom {ts : List PerlTok} (h : ts.head? ≠ some .bang) (fuel : ℕ) :
    perlExpr (fuel + 1) .not ts = perlExpr fuel .atom ts := by
  rw [perlExpr]
  rintro us rfl
  exact h rfl

theorem Derives.head_atom {ts : List GroupTok} {e : Expr} (h : Derives .atom ts e)
    (rest : List PerlTok) : (ts.map (perlTok groups) ++ rest).head? ≠ some .bang := by
  cases h with
  | name => simp [perlTok]
  | paren => simp [perlTok]

/-- A level with a connective: an operand that nothing of the level follows is the whole. -/
theorem perlExpr_and_last {ts rest : List PerlTok} {fuel : ℕ} {v : Bool}
    (h : perlExpr fuel .not ts = some (v, rest)) (hrest : rest.head? ≠ some .and) :
    perlExpr (fuel + 1) .and ts = some (v, rest) := by
  rw [perlExpr, h]
  split
  · rename_i heq
    cases heq
    exact absurd rfl hrest
  · rfl

theorem perlExpr_or_last {ts rest : List PerlTok} {fuel : ℕ} {v : Bool}
    (h : perlExpr fuel .and ts = some (v, rest)) (hrest : rest.head? ≠ some .or) :
    perlExpr (fuel + 1) .or ts = some (v, rest) := by
  rw [perlExpr, h]
  split
  · rename_i heq
    cases heq
    exact absurd rfl hrest
  · rfl

theorem count_ne_zero_eq_contains (n : List Char) : (grepCount groups n != 0) = groups.contains n := by
  rw [Bool.eq_iff_iff, bne_iff_ne, List.contains_iff_mem, grepCount, ne_eq, List.count_eq_zero,
    not_not]

/-- **The tokens of an expression are read as its meaning.** -/
theorem perlExpr_derives {l : Level} {ts : List GroupTok} {e : Expr} (h : Derives l ts e) {fuel : ℕ}
    (hfuel : 4 * ts.length + l.rank < fuel + 4) {rest : List PerlTok} (hrest : l.endsAt rest) :
    perlExpr fuel l (ts.map (perlTok groups) ++ rest) = some (e.holds groups, rest) := by
  have hpos := h.length_pos
  obtain ⟨fuel, rfl⟩ : ∃ k, fuel = k + 1 := ⟨fuel - 1, by omega⟩
  induction h generalizing fuel rest with
  | name n =>
    show some (grepCount groups n != 0, rest) = _
    rw [count_ne_zero_eq_contains]
    rfl
  | @paren ts e h ih =>
    have hlen := h.length_pos
    simp only [List.length_cons, List.length_append, List.length_nil, Level.rank] at hfuel
    obtain ⟨fuel, rfl⟩ : ∃ k, fuel = k + 1 := ⟨fuel - 1, by omega⟩
    have hinner := @ih (.rparen :: rest) (by simp [Level.endsAt]) hlen fuel
      (by simp only [Level.rank]; omega)
    simp only [List.cons_append, List.map_cons, List.map_append, List.map_nil, perlTok,
      List.append_assoc, List.nil_append]
    rw [perlExpr, hinner]
  | @atom ts e h ih =>
    simp only [Level.rank] at hfuel ih
    obtain ⟨fuel, rfl⟩ : ∃ k, fuel = k + 1 := ⟨fuel - 1, by omega⟩
    rw [perlExpr_not_atom (h.head_atom rest)]
    exact ih trivial hpos fuel (by omega)
  | @not ts e h ih =>
    have hlen := h.length_pos
    simp only [Level.rank, List.length_cons] at hfuel ih
    obtain ⟨fuel, rfl⟩ : ∃ k, fuel = k + 1 := ⟨fuel - 1, by omega⟩
    show (perlExpr (fuel + 1) .not (ts.map (perlTok groups) ++ rest)).map _ = _
    rw [ih trivial hlen fuel (by omega)]
    rfl
  | @neg ts e h ih =>
    simp only [Level.rank] at hfuel ih
    obtain ⟨fuel, rfl⟩ : ∃ k, fuel = k + 1 := ⟨fuel - 1, by omega⟩
    exact perlExpr_and_last (ih trivial hpos fuel (by omega)) hrest
  | @and ts us e₁ e₂ h₁ h₂ ih₁ ih₂ | @comma ts us e₁ e₂ h₁ h₂ ih₁ ih₂ =>
    have hlen₁ := h₁.length_pos
    have hlen₂ := h₂.length_pos
    simp only [Level.rank, List.length_append, List.length_cons] at hfuel ih₁ ih₂
    obtain ⟨fuel, rfl⟩ : ∃ k, fuel = k + 1 := ⟨fuel - 1, by omega⟩
    have hleft := @ih₁ (.and :: (us.map (perlTok groups) ++ rest)) trivial hlen₁ fuel (by omega)
    simp only [List.map_append, List.map_cons, List.append_assoc, List.cons_append, perlTok]
    rw [perlExpr, hleft]
    simp only
    rw [ih₂ hrest hlen₂ fuel (by omega)]
    rfl
  | @conj ts e h ih =>
    simp only [Level.rank] at hfuel ih
    obtain ⟨fuel, rfl⟩ : ∃ k, fuel = k + 1 := ⟨fuel - 1, by omega⟩
    exact perlExpr_or_last (ih hrest.1 hpos fuel (by omega)) hrest.2
  | @or ts us e₁ e₂ h₁ h₂ ih₁ ih₂ =>
    have hlen₁ := h₁.length_pos
    have hlen₂ := h₂.length_pos
    simp only [Level.rank, List.length_append, List.length_cons] at hfuel ih₁ ih₂
    obtain ⟨fuel, rfl⟩ : ∃ k, fuel = k + 1 := ⟨fuel - 1, by omega⟩
    have hleft := @ih₁ (.or :: (us.map (perlTok groups) ++ rest)) (by simp [Level.endsAt]) hlen₁ fuel
      (by omega)
    simp only [List.map_append, List.map_cons, List.append_assoc, List.cons_append, perlTok]
    rw [perlExpr, hleft]
    simp only
    rw [ih₂ hrest hlen₂ fuel (by omega)]
    rfl

/-- A text with the tokens of an expression has its value. -/
theorem evalPerl_of_derives {ts : List GroupTok} {e : Expr} {text : List Char}
    (hlex : perlLex none text = some (ts.map (perlTok groups))) (h : Derives .or ts e) :
    evalPerl text = e.holds groups := by
  have hfuel : 4 * ts.length + Level.or.rank < 4 * (ts.map (perlTok groups)).length + 4 + 4 := by
    rw [List.length_map]
    simp only [Level.rank]
    omega
  have hend : Level.or.endsAt [] := by simp [Level.endsAt]
  have hparse := @perlExpr_derives groups _ _ _ h _ hfuel _ hend
  rw [List.append_nil] at hparse
  rw [evalPerl, hlex]
  simp only
  rw [hparse]

end parse

/-! ### The test against the meaning -/

/-- Texts follow each other where no name can grow into the second one. -/
theorem Renders.append {ts us : List GroupTok} {s t : List Char} (hs : Renders ts s)
    (ht : Renders us t) (hhead : t.head?.any isNameChar = false) : Renders (ts ++ us) (s ++ t) := by
  induction hs with
  | nil => exact ht
  | space hc _ ih => exact .space hc ih
  | @name ts s n hn hs _ ih =>
    rw [List.append_assoc, List.cons_append]
    refine .name hn ?_ ih
    cases s with
    | nil => exact hhead
    | cons c s => exact hs
  | lparen _ ih => exact .lparen ih
  | rparen _ ih => exact .rparen ih
  | bang _ ih => exact .bang ih
  | and _ ih => exact .and ih
  | comma _ ih => exact .comma ih
  | or _ ih => exact .or ih

/-- The group that is left out of every selection. -/
def skipGroup : List Char := "Skip".toList

/-- The tokens that close the expression and leave the group out. -/
def skipToks : List GroupTok := [.rparen, .and, .bang, .name skipGroup]

theorem renders_skip : Renders skipToks " ) && ! Skip".toList :=
  .space rfl (.rparen (.space rfl (.and (.space rfl (.bang (.space rfl
    (@Renders.name [] [] skipGroup rfl rfl .nil)))))))

theorem derives_skip {ts : List GroupTok} {e : Expr} (h : Derives .or ts e) :
    Derives .or (.lparen :: ts ++ skipToks) (.both e (.not (.name skipGroup))) := by
  have hleft : Derives .not (.lparen :: ts ++ [.rparen]) e := .atom (.paren h)
  have hright : Derives .and [.bang, .name skipGroup] (.not (.name skipGroup)) :=
    .neg (.not (.atom (.name skipGroup)))
  have := Derives.conj (.and hleft hright)
  rwa [List.append_assoc] at this

/-- **`evaluate_groups` computes the meaning of the expression**, less the group `Skip`. -/
theorem evaluateGroups_eq {ts : List GroupTok} {e : Expr} {s : List Char} (h : Derives .or ts e)
    (hs : Renders ts s) (groups : List (List Char)) :
    evaluateGroups groups s = (e.holds groups && !groups.contains skipGroup) := by
  have htext : Renders (.lparen :: ts ++ skipToks) ("( ".toList ++ s ++ " ) && ! Skip".toList) :=
    (Renders.lparen (.space rfl hs)).append renders_skip rfl
  have hcommas : replaceCommas ("( ".toList ++ s ++ " ) && ! Skip".toList) =
      "( ".toList ++ replaceCommas s ++ " ) && ! Skip".toList := by
    rw [replaceCommas_append, replaceCommas_append]
    rfl
  have hlex : perlLex none (rewriteExpr groups s) =
      some ((.lparen :: ts ++ skipToks).map (perlTok groups)) := by
    rw [rewriteExpr, ← hcommas]
    exact perlLex_rewrite htext (by simp)
  rw [evaluateGroups, evalPerl_of_derives hlex (derives_skip h)]
  rfl

/-- A record that the expression selects, one without groups being in none. -/
def Expr.wants (e : Expr) (r : Insnrec) : Bool :=
  e.holds (r.groups.getD []) && !(r.groups.getD []).contains skipGroup

/-- A record is treated as the expression says unless it has no groups and is wanted nevertheless. -/
theorem keepsGroups_eq_iff {ts : List GroupTok} {e : Expr} {s : List Char} (h : Derives .or ts e)
    (hs : Renders ts s) (r : Insnrec) :
    keepsGroups s r = e.wants r ↔ r.groups.isSome = true ∨ e.holds [] = false := by
  cases hr : r.groups with
  | none =>
    have hwants : e.wants r = e.holds [] := by simp [Expr.wants, hr]
    rw [keepsGroups, hr, hwants]
    cases e.holds [] <;> simp
  | some groups =>
    rw [keepsGroups, hr, Expr.wants, hr]
    simp only [Option.getD_some, Option.isSome_some, true_or, iff_true]
    exact evaluateGroups_eq h hs groups

/-- A text with tokens counts as given. -/
theorem Renders.given {ts : List GroupTok} {s : List Char} (h : Renders ts s) (hts : ts ≠ []) :
    ¬(s = [] ∨ s = ['0']) := by
  cases h with
  | nil => exact absurd rfl hts
  | space hc h =>
    rintro (h | h)
    · cases h
    · cases h
      cases hc
  | @name ts s n hn _ _ =>
    cases n with
    | nil => cases hn
    | cons c n =>
      rintro (h | h)
      · exact absurd h (List.cons_ne_nil _ _)
      · obtain rfl : c = '0' := (List.cons.inj h).1
        cases hn
  | _ => simp

theorem filter_eq_filter_iff {α : Type} {p q : α → Bool} (l : List α) :
    l.filter p = l.filter q ↔ ∀ x ∈ l, p x = q x := by
  constructor
  · intro h x hx
    have := congrArg (x ∈ ·) h
    simpa [List.mem_filter, hx, ← Bool.eq_iff_iff] using this
  · exact List.filter_congr

/-- **Selection by groups is the Boolean meaning of the expression exactly if no record without
groups satisfies it**: for every list of records and every expression. -/
theorem selectByGroups_iff {ts : List GroupTok} {e : Expr} {s : List Char} (h : Derives .or ts e)
    (hs : Renders ts s) (details : List Insnrec) :
    selectByGroups s details = details.filter e.wants ↔
      ∀ r ∈ details, r.groups.isSome = true ∨ e.holds [] = false := by
  have hne : ts ≠ [] := List.ne_nil_of_length_pos h.length_pos
  rw [selectByGroups, if_neg (hs.given hne), filter_eq_filter_iff]
  exact forall₂_congr fun r _ => keepsGroups_eq_iff h hs r

/-- A record of the given groups. -/
def recordIn (groups : Option (List (List Char))) : Insnrec where
  name := "NOP A1".toList
  width := 32
  fixedbits := 0x60000000
  fixedbitmask := 0xffffffff
  fields := []
  blocks := fun _ => none
  groups := groups

theorem selectByGroups_nested :
    selectByGroups "A,!(B||C)".toList [recordIn (some ["A".toList]), recordIn none] =
      [recordIn (some ["A".toList]), recordIn none].filter
        (Expr.both (.name ['A']) (.not (.either (.name ['B']) (.name ['C'])))).wants := by
  have hB : Derives .and [.name ['B']] (.name ['B']) := .neg (.atom (.name _))
  have hC : Derives .or [.name ['C']] (.name ['C']) := .conj (.neg (.atom (.name _)))
  have h : Derives .or [.name ['A'], .comma, .bang, .lparen, .name ['B'], .or, .name ['C'], .rparen]
      (.both (.name ['A']) (.not (.either (.name ['B']) (.name ['C'])))) :=
    .conj (.comma (.atom (.name ['A'])) (.neg (.not (.atom (.paren (.or hB hC))))))
  have hs : Renders
      [.name ['A'], .comma, .bang, .lparen, .name ['B'], .or, .name ['C'], .rparen]
      "A,!(B||C)".toList :=
    @Renders.name _ _ ['A'] rfl rfl (.comma (.bang (.lparen
      (@Renders.name _ _ ['B'] rfl rfl (.or (@Renders.name _ _ ['C'] rfl rfl (.rparen .nil)))))))
  refine (selectByGroups_iff h hs _).2 ?_
  intro r hr
  exact .inr rfl

/-- `!A` leaves out a record that is in no group. -/
theorem not_group_drops_ungrouped :
    Derives .or [.bang, .name ['A']] (.not (.name ['A'])) ∧
      Renders [.bang, .name ['A']] "!A".toList ∧
      selectByGroups "!A".toList [recordIn none] ≠
        [recordIn none].filter (Expr.not (.name ['A'])).wants := by
  refine ⟨.conj (.neg (.not (.atom (.name ['A'])))), .bang (@Renders.name [] [] ['A'] rfl rfl .nil),
    ?_⟩
  have hcode : selectByGroups "!A".toList [recordIn none] = [] := rfl
  have hmeaning : [recordIn none].filter (Expr.not (.name ['A'])).wants = [recordIn none] := rfl
  rw [hcode, hmeaning]
  exact (List.cons_ne_nil _ _).symm

end Risu.Gen
