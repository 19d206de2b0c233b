import Mathlib.Data.List.Infix
import Risu.Shell.Getopt

/-!
# The options of a list of words

What a command line says, read in one pass over words that stay where they are.

* `Meaning`, `meaning` — the long option a name stands for;
* `readNext`, `readWord` — the options in one word, where the next word may be an argument;
* `Reading`, `readWords` — the options of all words, and the words that are none;
* `Complete`, `readWords_append` — words that are read whole, with others behind them;
* `search_exact`, `search_abbreviation` — the loop over the long options finds what a name means.
-/

namespace Risu.Shell.Getopt

open Lib

variable {φ : Type}

/-! ### Names -/

/-- What a name stands for. -/
inductive Meaning (φ : Type) where
  | unknown
  | ambiguous
  | option (index : ℕ) (p : LongOpt φ)

/-- The options with this name, each with its place. -/
def exacts (name : Str) (opts : List (LongOpt φ)) (i : ℕ) : List (LongOpt φ × ℕ) :=
  (opts.zipIdx i).filter fun x => x.1.name == name

/-- The options this name is the beginning of. -/
def abbreviated (name : Str) (opts : List (LongOpt φ)) (i : ℕ) : List (LongOpt φ × ℕ) :=
  (opts.zipIdx i).filter fun x => name.isPrefixOf x.1.name

/-- The first option that has the name, or else the only one the name abbreviates. -/
def meaning (name : Str) (opts : List (LongOpt φ)) : Meaning φ :=
  match exacts name opts 0 with
  | x :: _ => .option x.2 x.1
  | [] =>
    match abbreviated name opts 0 with
    | [] => .unknown
    | [x] => .option x.2 x.1
    | _ => .ambiguous

/-! ### One word -/

/-- What is read after an option: the same word, the next one, or the one behind its argument. -/
inductive After where
  | more
  | done
  | takes
  deriving DecidableEq

/-- A long option, and whether the word behind it, `next`, is its argument. -/
def readLong (cfg : Config φ) (opts : List (LongOpt φ)) (prog word : Str) (next : Option Str)
    (text : Str) : Option (Ret φ × Bool) :=
  let name := text.takeWhile fun c => c != equals
  let value := text.dropWhile fun c => c != equals
  match meaning name opts with
  | .ambiguous => some (cfg.bad (ambiguousText prog word), false)
  | .option index p =>
    if value ≠ [] then
      if p.hasArg ≠ .no then some (found index p (some value.tail), false)
      else some (cfg.bad (noArgumentText prog (mark word) p.name), false)
    else if p.hasArg = .required then
      match next with
      | some arg => some (found index p (some arg), true)
      | none =>
        some ({ cfg.bad (requiresText prog word) with
          code := if charAt cfg.optstring 0 = colon then colon.toNat else badOption }, false)
    else some (found index p none, false)
  | .unknown =>
    if !cfg.longOnly || charAt word 1 == dash || (myIndex cfg.optstring (charAt text 0)).isNone then
      some (cfg.bad (unrecognizedText prog (mark word) text), false)
    else none

/-- The argument of a short option, if the character is one. -/
def shortKind (optstring : Str) (c : Byte) : Option HasArg :=
  match myIndex optstring c with
  | none => none
  | some temp =>
    if c = colon then none
    else if charAt temp 1 = colon then if charAt temp 2 = colon then some .optional else some .required
    else some .no

/-- A short option with the characters behind it in the same word. -/
def readShort (cfg : Config φ) (prog : Str) (next : Option Str) (c : Byte) (cs : Str) :
    Ret φ × After :=
  match shortKind cfg.optstring c with
  | none => ({ cfg.bad (illegalText prog c) with optopt := some c }, .more)
  | some .no => (short c none, .more)
  | some .optional => (short c (if cs = [] then none else some cs), .done)
  | some .required =>
    if cs ≠ [] then (short c (some cs), .done)
    else
      match next with
      | some arg => (short c (some arg), .takes)
      | none =>
        ({ cfg.bad (missingText prog c) with
            code := if charAt cfg.optstring 0 = colon then colon.toNat else badOption
            optopt := some c }, .done)

/-- The option that starts with the character `c`. -/
def readNext (cfg : Config φ) (prog word : Str) (next : Option Str) (c : Byte) (cs : Str) :
    Ret φ × After :=
  let long :=
    match cfg.longopts with
    | none => none
    | some opts =>
      if charAt word 0 == dash && (charAt word 1 == dash || cfg.longOnly) then
        readLong cfg opts prog word next (c :: cs)
      else none
  match long with
  | some r => (r.1, if r.2 then .takes else .done)
  | none => readShort cfg prog next c cs

/-- The options in the characters of a word, and whether the next word is an argument. -/
def readWord (cfg : Config φ) (prog word : Str) (next : Option Str) : Str → List (Ret φ) × Bool
  | [] => ([], false)
  | c :: cs =>
    match readNext cfg prog word next c cs with
    | (r, .more) => (r :: (readWord cfg prog word next cs).1, (readWord cfg prog word next cs).2)
    | (r, .done) => ([r], false)
    | (r, .takes) => ([r], true)

/-- The characters of an option word that are decoded. -/
def optionChars (cfg : Config φ) (word : Str) : Str :=
  word.drop (1 + if cfg.longopts.isSome && charAt word 1 == dash then 1 else 0)

/-! ### All words -/

/-- What all the calls return, the words that belong to options, and the others. -/
structure Reading (φ : Type) where
  results : List (Ret φ)
  options : List Str
  operands : List Str

/-- A word that is no option, where it is given to the caller. -/
def operand (cfg : Config φ) (word : Str) : Ret φ :=
  { cfg.bad [] with code := 1, optarg := some word }

def readWords (cfg : Config φ) (ordering : ArgOrder) (prog : Str) : List Str → Reading φ
  | [] => ⟨[], [], []⟩
  | w :: ws =>
    if w = dashes then ⟨[], [w], ws⟩
    else if isNonoption w then
      match ordering with
      | .requireOrder => ⟨[], [], w :: ws⟩
      | .permute =>
        let r := readWords cfg ordering prog ws
        { r with operands := w :: r.operands }
      | .returnInOrder =>
        let r := readWords cfg ordering prog ws
        ⟨operand cfg w :: r.results, w :: r.options, r.operands⟩
    else
      let x := readWord cfg prog w ws.head? (optionChars cfg w)
      if x.2 then
        match ws with
        | [] => ⟨x.1, [w], []⟩
        | arg :: ws =>
          let r := readWords cfg ordering prog ws
          ⟨x.1 ++ r.results, w :: arg :: r.options, r.operands⟩
      else
        let r := readWords cfg ordering prog ws
        ⟨x.1 ++ r.results, w :: r.options, r.operands⟩

/-- The last word has no argument behind it. -/
theorem readLong_none {cfg : Config φ} {opts : List (LongOpt φ)} {prog word text : Str}
    {x : Ret φ × Bool} (h : readLong cfg opts prog word none text = some x) : x.2 = false := by
  unfold readLong at h
  cases hmeaning : meaning (text.takeWhile fun c => c != equals) opts with
  | unknown =>
    simp only [hmeaning] at h
    split_ifs at h
    exact (Option.some.inj h).symm ▸ rfl
  | ambiguous =>
    simp only [hmeaning] at h
    exact (Option.some.inj h).symm ▸ rfl
  | option index p =>
    simp only [hmeaning] at h
    split_ifs at h
    all_goals exact (Option.some.inj h).symm ▸ rfl

theorem readShort_none (cfg : Config φ) (prog : Str) (c : Byte) (cs : Str) :
    (readShort cfg prog none c cs).2 ≠ .takes := by
  unfold readShort
  cases shortKind cfg.optstring c with
  | none => exact fun h => nomatch h
  | some kind =>
    cases kind with
    | no => exact fun h => nomatch h
    | optional => exact fun h => nomatch h
    | required =>
      simp only
      split_ifs
      all_goals exact fun h => nomatch h

theorem readNext_none (cfg : Config φ) (prog word : Str) (c : Byte) (cs : Str) :
    (readNext cfg prog word none c cs).2 ≠ .takes := by
  have hshort := readShort_none cfg prog c cs
  unfold readNext
  cases cfg.longopts with
  | none => exact hshort
  | some opts =>
    simp only
    split_ifs with hlong
    · cases hread : readLong cfg opts prog word none (c :: cs) with
      | none => exact hshort
      | some x =>
        simp only [readLong_none hread, Bool.false_eq_true, if_false]
        exact fun h => nomatch h
    · exact hshort

section words

variable {cfg : Config φ} {ordering : ArgOrder} {prog w : Str} {ws : List Str}

/-- A word with options that needs no other word. -/
theorem readWords_alone (hdashes : w ≠ dashes) (hw : isNonoption w = false)
    (htakes : (readWord cfg prog w ws.head? (optionChars cfg w)).2 = false) :
    readWords cfg ordering prog (w :: ws) =
      ⟨(readWord cfg prog w ws.head? (optionChars cfg w)).1 ++
          (readWords cfg ordering prog ws).results,
        [w] ++ (readWords cfg ordering prog ws).options,
        (readWords cfg ordering prog ws).operands⟩ := by
  rw [readWords.eq_def]
  simp only [if_neg hdashes, hw, htakes, Bool.false_eq_true, if_false]
  rfl

/-- A word with options, the last of which has its argument in the next word. -/
theorem readWords_takes {a : Str} (hdashes : w ≠ dashes) (hw : isNonoption w = false)
    (htakes : (readWord cfg prog w (a :: ws).head? (optionChars cfg w)).2 = true) :
    readWords cfg ordering prog (w :: a :: ws) =
      ⟨(readWord cfg prog w (a :: ws).head? (optionChars cfg w)).1 ++
          (readWords cfg ordering prog ws).results,
        [w, a] ++ (readWords cfg ordering prog ws).options,
        (readWords cfg ordering prog ws).operands⟩ := by
  rw [readWords.eq_def]
  simp only [if_neg hdashes, hw, htakes, Bool.false_eq_true, if_false, if_true]
  rfl

/-- What holds of every option holds of all that is returned. -/
theorem readWord_results {Q : Ret φ → Prop} {next : Option Str} {cs : Str}
    (hnext : ∀ c cs, Q (readNext cfg prog w next c cs).1) :
    ∀ r ∈ (readWord cfg prog w next cs).1, Q r := by
  induction cs with
  | nil => exact fun r hr => nomatch hr
  | cons c cs ih =>
    have hc := hnext c cs
    rw [readWord]
    cases hread : readNext cfg prog w next c cs with
    | mk r after =>
      rw [hread] at hc
      intro r' hr'
      cases after with
      | more =>
        obtain rfl | hr' := List.mem_cons.mp hr'
        · exact hc
        · exact ih r' hr'
      | done => exact List.mem_singleton.mp hr' ▸ hc
      | takes => exact List.mem_singleton.mp hr' ▸ hc

theorem readWords_results {Q : Ret φ → Prop}
    (hnext : ∀ word next c cs, Q (readNext cfg prog word next c cs).1) :
    ∀ r ∈ (readWords cfg .permute prog ws).results, Q r := by
  induction hn : ws.length using Nat.strong_induction_on generalizing ws with
  | _ n ih =>
    cases ws with
    | nil => exact fun r hr => nomatch hr
    | cons w ws =>
      have hws := ih ws.length (hn ▸ Nat.lt_succ_self _) rfl
      have hword := @readWord_results φ cfg prog w Q ws.head? (optionChars cfg w) (hnext w ws.head?)
      rw [readWords.eq_def]
      by_cases hdashes : w = dashes
      · simp only [if_pos hdashes]
        exact fun r hr => nomatch hr
      · by_cases hw : isNonoption w = true
        · simp only [if_neg hdashes, if_pos hw]
          exact hws
        · simp only [if_neg hdashes, if_neg hw]
          cases htakes : (readWord cfg prog w ws.head? (optionChars cfg w)).2 with
          | false =>
            simp only [Bool.false_eq_true, if_false]
            intro r hr
            obtain hr | hr := List.mem_append.mp hr
            · exact hword r hr
            · exact hws r hr
          | true =>
            cases ws with
            | nil => exact hword
            | cons a ws =>
              intro r hr
              obtain hr | hr := List.mem_append.mp hr
              · exact hword r hr
              · exact ih ws.length (hn ▸ Nat.lt_succ_of_lt (Nat.lt_succ_self _)) rfl r hr

end words

/-- Words in front that are no options, where these are moved behind the others. -/
theorem readWords_permute (cfg : Config φ) (prog : Str) (ws : List Str) :
    readWords cfg .permute prog ws =
      { readWords cfg .permute prog (ws.dropWhile isNonoption) with
        operands := ws.takeWhile isNonoption ++
          (readWords cfg .permute prog (ws.dropWhile isNonoption)).operands } := by
  induction ws with
  | nil => rfl
  | cons w ws ih =>
    by_cases hw : isNonoption w = true
    · have hne : w ≠ dashes := by
        rintro rfl
        exact absurd hw (by decide)
      rw [List.takeWhile_cons_of_pos hw, List.dropWhile_cons_of_pos hw, readWords.eq_def]
      simp only [if_neg hne, if_pos hw]
      rw [ih]
      rfl
    · rw [List.takeWhile_cons_of_neg hw, List.dropWhile_cons_of_neg hw]
      rfl

/-! ### Words in their order -/

/-- What the words at the front add to a reading of the words `rest`. -/
structure Adds (cfg : Config φ) (ordering : ArgOrder) (prog : Str) (ws os ops rest : List Str) :
    Prop where
  words : ws = os ++ ops ++ rest
  options : (readWords cfg ordering prog ws).options =
    os ++ (readWords cfg ordering prog rest).options
  operands : (readWords cfg ordering prog ws).operands =
    ops ++ (readWords cfg ordering prog rest).operands

/-- One word, with its argument. -/
theorem readWords_adds (cfg : Config φ) (ordering : ArgOrder) (prog w : Str) (ws : List Str) :
    ∃ os ops rest, rest.length ≤ ws.length ∧ Adds cfg ordering prog (w :: ws) os ops rest := by
  by_cases hdashes : w = dashes
  · refine ⟨[w], ws, [], Nat.zero_le _, by simp, ?_, ?_⟩
    · rw [readWords.eq_def]
      simp only [if_pos hdashes]
      rfl
    · rw [readWords.eq_def]
      simp only [if_pos hdashes]
      exact (List.append_nil _).symm
  · by_cases hw : isNonoption w = true
    · have hword : readWords cfg ordering prog (w :: ws) = _ := readWords.eq_def ..
      simp only [if_neg hdashes, if_pos hw] at hword
      cases ordering with
      | requireOrder => exact ⟨[], w :: ws, [], Nat.zero_le _, by simp, by rw [hword]; rfl, by
          rw [hword]
          exact (List.append_nil _).symm⟩
      | permute => exact ⟨[], [w], ws, Nat.le_refl _, rfl, by rw [hword]; rfl, by rw [hword]; rfl⟩
      | returnInOrder =>
        exact ⟨[w], [], ws, Nat.le_refl _, rfl, by rw [hword]; rfl, by rw [hword]; rfl⟩
    · have hw : isNonoption w = false := Bool.eq_false_iff.mpr hw
      cases htakes : (readWord cfg prog w ws.head? (optionChars cfg w)).2 with
      | false =>
        have hword : readWords cfg ordering prog (w :: ws) = _ := readWords_alone hdashes hw htakes
        exact ⟨[w], [], ws, Nat.le_refl _, rfl, by rw [hword], by rw [hword]; rfl⟩
      | true =>
        cases ws with
        | nil =>
          have hword : readWords cfg ordering prog [w] = _ := readWords.eq_def ..
          simp only [if_neg hdashes, hw, htakes, Bool.false_eq_true, if_false, if_true] at hword
          exact ⟨[w], [], [], Nat.le_refl _, rfl, by rw [hword]; rfl, by rw [hword]; rfl⟩
        | cons a ws =>
          have hword : readWords cfg ordering prog (w :: a :: ws) = _ :=
            readWords_takes hdashes hw htakes
          exact ⟨[w, a], [], ws, Nat.le_succ _, rfl, by rw [hword], by rw [hword]; rfl⟩

/-- **No word is lost**, and the words of options and the others keep their order. -/
theorem readWords_order (cfg : Config φ) (ordering : ArgOrder) (prog : Str) (ws : List Str) :
    ((readWords cfg ordering prog ws).options ++
        (readWords cfg ordering prog ws).operands).Perm ws ∧
      (readWords cfg ordering prog ws).options.Sublist ws ∧
      (readWords cfg ordering prog ws).operands.Sublist ws := by
  induction hn : ws.length using Nat.strong_induction_on generalizing ws with
  | _ n ih =>
    cases ws with
    | nil => exact ⟨.refl [], .refl [], .refl []⟩
    | cons w ws =>
      obtain ⟨os, ops, rest, hlen, hwords, hoptions, hoperands⟩ :=
        readWords_adds cfg ordering prog w ws
      obtain ⟨hperm, hos, hops⟩ := ih rest.length (hn ▸ Nat.lt_succ_of_le hlen) rest rfl
      rw [hoptions, hoperands, hwords]
      refine ⟨?_, ?_, ?_⟩
      · have hswap : ((readWords cfg ordering prog rest).options ++ ops).Perm
            (ops ++ (readWords cfg ordering prog rest).options) := List.perm_append_comm
        have hmid := (hswap.append_right (readWords cfg ordering prog rest).operands).append_left os
        have hrest := hperm.append_left (os ++ ops)
        simp only [List.append_assoc] at hmid hrest ⊢
        exact hmid.trans hrest
      · rw [List.append_assoc]
        exact (List.Sublist.refl os).append (hos.trans (List.sublist_append_right ops rest))
      · exact (List.sublist_append_right os ops).append hops

/-! ### Words at any place -/

/-- The word ends in an option whose argument is the next word, if there is one. -/
def wantsArgument (cfg : Config φ) (w : Str) : Bool :=
  (readWord cfg [] w (some []) (optionChars cfg w)).2

/-- The words are read whole: nothing ends the options, and no option lacks its argument. -/
def Complete (cfg : Config φ) : List Str → Prop
  | [] => True
  | w :: ws =>
    w ≠ dashes ∧
      if isNonoption w = false ∧ wantsArgument cfg w = true then
        match ws with
        | [] => False
        | _ :: ws => Complete cfg ws
      else Complete cfg ws

/-- What an option needs of the next word. -/
theorem readLong_next (cfg : Config φ) (opts : List (LongOpt φ)) (prog prog' word text a : Str)
    (next : Option Str) :
    ((readLong cfg opts prog word (some a) text).map Prod.snd =
        (readLong cfg opts prog' word (some []) text).map Prod.snd) ∧
      ((readLong cfg opts prog' word (some []) text).map Prod.snd ≠ some true →
        readLong cfg opts prog word next text = readLong cfg opts prog word (some a) text) := by
  unfold readLong
  cases hmeaning : meaning (text.takeWhile fun c => c != equals) opts with
  | unknown =>
    simp only [hmeaning]
    split_ifs <;> simp
  | ambiguous =>
    simp only [hmeaning]
    simp
  | option index p =>
    by_cases hvalue : text.dropWhile (fun c => c != equals) ≠ []
    · simp only [hmeaning, if_pos hvalue]
      split_ifs <;> simp
    · by_cases hreq : p.hasArg = .required
      · simp only [hmeaning, if_neg hvalue, if_pos hreq]
        exact ⟨rfl, fun h => absurd rfl h⟩
      · simp only [hmeaning, if_neg hvalue, if_neg hreq]
        simp

theorem readShort_next (cfg : Config φ) (prog prog' a : Str) (next : Option Str) (c : Byte)
    (cs : Str) :
    ((readShort cfg prog (some a) c cs).2 = (readShort cfg prog' (some []) c cs).2) ∧
      ((readShort cfg prog' (some []) c cs).2 ≠ .takes →
        readShort cfg prog next c cs = readShort cfg prog (some a) c cs) := by
  unfold readShort
  cases shortKind cfg.optstring c with
  | none => exact ⟨rfl, fun _ => rfl⟩
  | some kind =>
    cases kind with
    | no => exact ⟨rfl, fun _ => rfl⟩
    | optional => exact ⟨rfl, fun _ => rfl⟩
    | required =>
      by_cases hcs : cs ≠ []
      · simp only [if_pos hcs]
        simp
      · simp only [if_neg hcs]
        exact ⟨trivial, fun h => absurd rfl h⟩

theorem readNext_next (cfg : Config φ) (prog prog' word a : Str) (next : Option Str) (c : Byte)
    (cs : Str) :
    ((readNext cfg prog word (some a) c cs).2 = (readNext cfg prog' word (some []) c cs).2) ∧
      ((readNext cfg prog' word (some []) c cs).2 ≠ .takes →
        readNext cfg prog word next c cs = readNext cfg prog word (some a) c cs) := by
  have hshort := readShort_next cfg prog prog' a next c cs
  unfold readNext
  cases cfg.longopts with
  | none => exact hshort
  | some opts =>
    simp only
    split_ifs with hlong
    · obtain ⟨hsame, hnext⟩ := readLong_next cfg opts prog prog' word (c :: cs) a next
      cases hread' : readLong cfg opts prog' word (some []) (c :: cs) with
      | none =>
        rw [hread'] at hsame hnext
        rw [hnext (fun h => nomatch h), Option.map_eq_none_iff.mp hsame]
        exact hshort
      | some x' =>
        rw [hread'] at hsame hnext
        obtain ⟨x, hread, hx⟩ := Option.map_eq_some_iff.mp hsame
        rw [hread] at hnext ⊢
        refine ⟨by simp only [hx], fun htakes => ?_⟩
        rw [hnext]
        intro htrue
        exact htakes (by simp only [Option.some.inj htrue, if_true])
    · exact hshort

/-- **The next word matters only to a word that wants it**, and whether it does is seen in the word
alone. -/
theorem readWord_next (cfg : Config φ) (prog prog' word a : Str) (next : Option Str) (cs : Str) :
    ((readWord cfg prog word (some a) cs).2 = (readWord cfg prog' word (some []) cs).2) ∧
      ((readWord cfg prog' word (some []) cs).2 = false →
        readWord cfg prog word next cs = readWord cfg prog word (some a) cs) := by
  induction cs with
  | nil => exact ⟨rfl, fun _ => rfl⟩
  | cons c cs ih =>
    obtain ⟨hsame, hnext⟩ := readNext_next cfg prog prog' word a next c cs
    rw [readWord, readWord, readWord]
    cases hread' : readNext cfg prog' word (some []) c cs with
    | mk r' after' =>
      rw [hread'] at hsame hnext
      cases hread : readNext cfg prog word (some a) c cs with
      | mk r after =>
        rw [hread] at hsame hnext
        have hsame : after = after' := hsame
        subst hsame
        cases after with
        | more =>
          rw [hnext (fun h => nomatch h)]
          exact ⟨ih.1, fun h => by simp only [ih.2 h]⟩
        | done =>
          rw [hnext (fun h => nomatch h)]
          exact ⟨rfl, fun _ => rfl⟩
        | takes => exact ⟨rfl, fun h => Bool.noConfusion h⟩

/-- What `readWord` takes from a word that is there. -/
theorem readWord_takes (cfg : Config φ) (prog w a : Str) :
    (readWord cfg prog w (some a) (optionChars cfg w)).2 = wantsArgument cfg w :=
  (readWord_next cfg prog [] w a none _).1

/-- A word that wants no argument reads the same wherever it stands. -/
theorem readWord_alone {cfg : Config φ} {w : Str} (h : wantsArgument cfg w = false) (prog : Str)
    (next next' : Option Str) :
    readWord cfg prog w next (optionChars cfg w) = readWord cfg prog w next' (optionChars cfg w) :=
  ((readWord_next cfg prog [] w [] next _).2 h).trans
    ((readWord_next cfg prog [] w [] next' _).2 h).symm

theorem readWord_alone_takes {cfg : Config φ} {w : Str} (h : wantsArgument cfg w = false)
    (prog : Str) (next : Option Str) :
    (readWord cfg prog w next (optionChars cfg w)).2 = false := by
  rw [readWord_alone h prog next (some []), readWord_takes, h]

/-- **Two lists of words one after the other**, the first of which is read whole. -/
theorem readWords_append (cfg : Config φ) (prog : Str) {xs : List Str} (hxs : Complete cfg xs)
    (ys : List Str) :
    readWords cfg .permute prog (xs ++ ys) =
      ⟨(readWords cfg .permute prog xs).results ++ (readWords cfg .permute prog ys).results,
        (readWords cfg .permute prog xs).options ++ (readWords cfg .permute prog ys).options,
        (readWords cfg .permute prog xs).operands ++
          (readWords cfg .permute prog ys).operands⟩ := by
  induction hn : xs.length using Nat.strong_induction_on generalizing xs with
  | _ n ih =>
    cases xs with
    | nil => rfl
    | cons w ws =>
      rw [Complete.eq_def] at hxs
      obtain ⟨hdashes, hrest⟩ := hxs
      by_cases hw : isNonoption w = true
      · rw [if_neg (by rw [hw]; exact fun h => Bool.noConfusion h.1)] at hrest
        have hmany := ih ws.length (hn ▸ Nat.lt_succ_self _) hrest rfl
        rw [List.cons_append, readWords.eq_def, readWords.eq_def cfg .permute prog (w :: ws)]
        simp only [if_neg hdashes, if_pos hw, hmany]
        rfl
      · have hw : isNonoption w = false := Bool.eq_false_iff.mpr hw
        cases hwants : wantsArgument cfg w with
        | false =>
          rw [if_neg (by rw [hwants]; exact fun h => Bool.noConfusion h.2)] at hrest
          have hmany := ih ws.length (hn ▸ Nat.lt_succ_self _) hrest rfl
          rw [List.cons_append, readWords_alone hdashes hw (readWord_alone_takes hwants prog _),
            readWords_alone hdashes hw (readWord_alone_takes hwants prog _), hmany,
            readWord_alone hwants prog (ws ++ ys).head? ws.head?]
          simp only [List.append_assoc]
        | true =>
          rw [if_pos ⟨hw, hwants⟩] at hrest
          cases ws with
          | nil => exact hrest.elim
          | cons a ws =>
            have hmany := ih ws.length
              (hn ▸ Nat.lt_succ_of_lt (Nat.lt_succ_self _)) hrest rfl
            have htakes : (readWord cfg prog w (a :: ws).head? (optionChars cfg w)).2 = true :=
              (readWord_takes cfg prog w a).trans hwants
            have hboth : readWords cfg .permute prog (w :: a :: (ws ++ ys)) = _ :=
              readWords_takes hdashes hw htakes
            rw [List.cons_append, List.cons_append, hboth, readWords_takes hdashes hw htakes, hmany]
            simp only [List.append_assoc]
            rfl

/-! ### The loop over the long options -/

theorem myStrncmp_eq_zero {name text : Str} {n : ℕ} (hn : n ≤ text.length)
    (hzero : ∀ c ∈ text, c ≠ 0) :
    myStrncmp name text n = 0 ↔ (text.take n).isPrefixOf name = true := by
  induction n generalizing name text with
  | zero => simp [myStrncmp]
  | succ n ih =>
    cases text with
    | nil => simp at hn
    | cons c text =>
      have hc : c ≠ 0 := hzero c (List.mem_cons_self ..)
      have hrest : ∀ d ∈ text, d ≠ 0 := fun d hd => hzero d (List.mem_cons_of_mem c hd)
      have hlen : n ≤ text.length := by simpa using hn
      cases name with
      | nil =>
        have hne : c.toNat ≠ 0 := fun h => hc (BitVec.eq_of_toNat_eq h)
        simp [myStrncmp, charAt, hne]
      | cons d name =>
        by_cases hd : d = c
        · subst hd
          have hd : ¬ d = 0#8 := hc
          simp [myStrncmp, charAt, hd, ih hlen hrest]
        · have hne : (d.toNat : Int) - c.toNat ≠ 0 := by
            intro h
            exact hd (BitVec.eq_of_toNat_eq (by omega))
          simp [myStrncmp, charAt, hd, hne, Ne.symm hd]

section search

variable {text : Str} (hzero : ∀ c ∈ text, c ≠ 0) {n : ℕ} (hn : n ≤ text.length)

include hzero hn

/-- An option that has the name is found, the first one where there are several. -/
theorem search_exact {opts : List (LongOpt φ)} {i : ℕ} (pfound : Option (ℕ × LongOpt φ))
    (ambig : Bool) {x : LongOpt φ × ℕ} {xs : List (LongOpt φ × ℕ)}
    (h : exacts (text.take n) opts i = x :: xs) :
    (search text n opts i pfound ambig).pfound = some (x.2, x.1) ∧
      (search text n opts i pfound ambig).exact = true := by
  induction opts generalizing i pfound ambig with
  | nil => cases h
  | cons p ps ih =>
    have htake : (text.take n).length = n := List.length_take_of_le hn
    rw [exacts, List.zipIdx_cons, List.filter_cons] at h
    unfold search
    by_cases hname : p.name = text.take n
    · have hstrncmp : myStrncmp p.name text n = 0 :=
        (myStrncmp_eq_zero hn hzero).mpr (by rw [hname]; simp)
      rw [if_pos (by simpa using hname)] at h
      rw [if_pos hstrncmp, if_pos (by rw [hname, htake])]
      rw [← List.cons.inj h |>.1]
      exact ⟨rfl, rfl⟩
    · rw [if_neg (by simpa using hname)] at h
      by_cases hprefix : (text.take n).isPrefixOf p.name = true
      · have hlength : n ≠ p.name.length := by
          intro hlen
          have hpre := List.isPrefixOf_iff_prefix.mp hprefix
          exact hname (hpre.eq_of_length (by rw [htake, hlen])).symm
        rw [if_pos ((myStrncmp_eq_zero hn hzero).mpr hprefix), if_neg hlength]
        cases pfound with
        | none => exact ih (some (i, p)) ambig h
        | some found => exact ih (some found) true h
      · rw [if_neg (mt (myStrncmp_eq_zero hn hzero).mp hprefix)]
        exact ih pfound ambig h

/-- Where no option has the name, the first one it abbreviates is found; there are several if the loop
says that there are. -/
theorem search_abbreviation {opts : List (LongOpt φ)} {i : ℕ} (pfound : Option (ℕ × LongOpt φ))
    (ambig : Bool) (h : exacts (text.take n) opts i = []) :
    (search text n opts i pfound ambig).exact = false ∧
      (search text n opts i pfound ambig).pfound =
        pfound.or ((abbreviated (text.take n) opts i).head?.map Prod.swap) ∧
      (search text n opts i pfound ambig).ambig =
        (ambig || decide (2 ≤ pfound.toList.length + (abbreviated (text.take n) opts i).length)) := by
  induction opts generalizing i pfound ambig with
  | nil =>
    cases pfound with
    | none => simp [search, abbreviated]
    | some found => simp [search, abbreviated]
  | cons p ps ih =>
    have htake : (text.take n).length = n := List.length_take_of_le hn
    rw [exacts, List.zipIdx_cons, List.filter_cons] at h
    have hname : p.name ≠ text.take n := by
      intro hname
      rw [if_pos (by simpa using hname)] at h
      cases h
    rw [if_neg (by simpa using hname)] at h
    unfold search
    rw [abbreviated, List.zipIdx_cons, List.filter_cons]
    by_cases hprefix : (text.take n).isPrefixOf p.name = true
    · have hlength : n ≠ p.name.length := by
        intro hlen
        have hpre := List.isPrefixOf_iff_prefix.mp hprefix
        exact hname (hpre.eq_of_length (by rw [htake, hlen])).symm
      rw [if_pos ((myStrncmp_eq_zero hn hzero).mpr hprefix), if_neg hlength, if_pos hprefix]
      cases pfound with
      | none =>
        obtain ⟨hexact, hfound, hambig⟩ := ih (some (i, p)) ambig h
        refine ⟨hexact, hfound, ?_⟩
        rw [hambig, abbreviated]
        simp only [Option.toList_some, Option.toList_none, List.length_cons, List.length_nil,
          Nat.zero_add, Nat.add_comm]
      | some found =>
        obtain ⟨hexact, hfound, hambig⟩ := ih (some found) true h
        refine ⟨hexact, hfound, ?_⟩
        have hmany : 2 ≤ (some found).toList.length + ((p, i) ::
            (ps.zipIdx (i + 1)).filter fun x => (text.take n).isPrefixOf x.1.name).length := by
          simp only [Option.toList_some, List.length_cons, List.length_nil]
          omega
        rw [hambig, decide_eq_true hmany, Bool.or_true, Bool.true_or]
    · rw [if_neg (mt (myStrncmp_eq_zero hn hzero).mp hprefix), if_neg hprefix]
      exact ih pfound ambig h

end search

end Risu.Shell.Getopt
