import Mathlib.Data.List.TakeWhile
import Risu.Shell.Options

/-!
# `getopt_long` returns the options of the words

* `Search.Means`, `search_means` — the loop over the long options and the meaning of a name;
* `decode_eq` — the decoding of characters reads the next option of a word;
* `Place` — the parts of `argv` between two calls;
* `leads_word`, `ends_words` — the calls for one word, and all calls;
* `getopt_returns` — what the calls return, and how they leave `argv`.
-/

namespace Risu.Shell.Getopt

open Lib

variable {φ : Type}

/-! ### Names -/

/-- What the loop finds says what the name means. -/
def Search.Means (r : Search φ) : Meaning φ → Prop
  | .unknown => (r.ambig && !r.exact) = false ∧ r.pfound = none
  | .ambiguous => (r.ambig && !r.exact) = true
  | .option index p => (r.ambig && !r.exact) = false ∧ r.pfound = some (index, p)

theorem search_means {text : Str} (hzero : ∀ c ∈ text, c ≠ 0) {n : ℕ} (hn : n ≤ text.length)
    (opts : List (LongOpt φ)) :
    (search text n opts 0 none false).Means (meaning (text.take n) opts) := by
  unfold meaning
  cases hexacts : exacts (text.take n) opts 0 with
  | cons x xs =>
    obtain ⟨hfound, hexact⟩ := search_exact hzero hn none false hexacts
    refine ⟨?_, hfound⟩
    rw [hexact, Bool.not_true, Bool.and_false]
  | nil =>
    obtain ⟨hexact, hfound, hambig⟩ :=
      search_abbreviation hzero hn none false hexacts
    cases habbr : abbreviated (text.take n) opts 0 with
    | nil =>
      rw [habbr] at hfound hambig
      refine ⟨?_, hfound⟩
      rw [hambig]
      rfl
    | cons x xs =>
      cases xs with
      | nil =>
        rw [habbr] at hfound hambig
        refine ⟨?_, hfound⟩
        rw [hambig]
        rfl
      | cons y ys =>
        rw [habbr] at hambig
        show ((search text n opts 0 none false).ambig && !(search text n opts 0 none false).exact) =
          true
        rw [hambig, hexact]
        simp

/-! ### The option at a character -/

/-- How many words are behind the call. -/
def After.words (cs : Str) : After → ℕ
  | .more => if cs = [] then 1 else 0
  | .done => 1
  | .takes => 2

/-- The characters that are left in the word. -/
def After.ahead (cs : Str) : After → Str
  | .more => cs
  | .done => []
  | .takes => []

section decode

variable {cfg : Config φ} {v : Vars} {prog w : Str} {pre ws : List Str}

/-- The word at `optind`, and the program's name. -/
structure Vars.At (v : Vars) (prog : Str) (pre : List Str) (w : Str) (ws : List Str) : Prop where
  argv : v.argv = prog :: (pre ++ w :: ws)
  optind : v.optind = 1 + pre.length

namespace Vars.At

theorem prog_eq (h : v.At prog pre w ws) : v.prog = prog := by
  rw [Vars.prog, Vars.arg, h.argv]
  rfl

theorem arg_eq (h : v.At prog pre w ws) : v.arg v.optind = w := by
  rw [Vars.arg, h.argv, h.optind, Nat.add_comm, List.getD_cons_succ]
  simp

theorem arg_next (h : v.At prog pre w ws) :
    v.argv[v.optind + 1]? = ws.head? := by
  rw [h.argv, h.optind, Nat.add_comm 1, List.getElem?_cons_succ,
    List.getElem?_append_right (Nat.le_succ _), Nat.succ_sub (Nat.le_refl _), Nat.sub_self,
    List.getElem?_cons_succ]
  cases ws <;> rfl

theorem argc_eq (h : v.At prog pre w ws) : v.argc = v.optind + 1 + ws.length := by
  rw [Vars.argc, h.argv, h.optind]
  simp only [List.length_cons, List.length_append]
  omega

end Vars.At

/-- The variables behind an option. -/
def Vars.behind (v : Vars) (words : ℕ) (nextchar : Option Str) : Vars :=
  { v with optind := v.optind + words, nextchar := nextchar }

/-- A long option. -/
theorem longOption_eq (h : v.At prog pre w ws) {text : Str} (hzero : ∀ c ∈ text, c ≠ 0)
    (opts : List (LongOpt φ)) :
    v.longOption cfg cfg.optstring opts text =
      (readLong cfg opts prog w ws.head? text).map fun x =>
        (x.1, v.behind (if x.2 then 2 else 1) (some [])) := by
  have hsplit : text.takeWhile (fun c => c != equals) ++ text.dropWhile (fun c => c != equals) =
    text := List.takeWhile_append_dropWhile
  have htake : text.take (text.takeWhile fun c => c != equals).length =
      text.takeWhile fun c => c != equals :=
    (List.prefix_iff_eq_take.mp (List.takeWhile_prefix _)).symm
  have hdrop : text.drop (text.takeWhile fun c => c != equals).length =
      text.dropWhile fun c => c != equals := by
    have happend := List.take_append_drop (text.takeWhile fun c => c != equals).length text
    rw [htake] at happend
    exact List.append_cancel_left (happend.trans hsplit.symm)
  have hn : (text.takeWhile fun c => c != equals).length ≤ text.length :=
    (List.takeWhile_prefix _).length_le
  have hmeans := search_means hzero hn opts
  have hlast : v.skip.finish.arg (v.skip.finish.optind - 1) = w := h.arg_eq
  have hprog : v.skip.finish.prog = prog := h.prog_eq
  rw [htake] at hmeans
  simp only [Vars.longOption, readLong, h.prog_eq, h.arg_eq, hdrop, hlast, hprog]
  cases hmeaning : meaning (text.takeWhile fun c => c != equals) opts with
  | ambiguous =>
    rw [hmeaning] at hmeans
    have hambig : _ = true := hmeans
    simp only [hambig, if_true, Option.map_some]
    rfl
  | unknown =>
    rw [hmeaning] at hmeans
    obtain ⟨hambig, hfound⟩ := hmeans
    simp only [hambig, hfound, Bool.false_eq_true, if_false]
    split_ifs
    · rfl
    · rfl
  | option index p =>
    rw [hmeaning] at hmeans
    obtain ⟨hambig, hfound⟩ := hmeans
    simp only [hambig, hfound, Bool.false_eq_true, if_false]
    by_cases hvalue : text.dropWhile (fun c => c != equals) ≠ []
    · simp only [if_pos hvalue]
      split_ifs
      · rfl
      · rfl
    · simp only [if_neg hvalue]
      by_cases hreq : p.hasArg = .required
      · simp only [if_pos hreq]
        have hargc : v.skip.finish.argc = v.optind + 1 + ws.length := h.argc_eq
        have hnext := h.arg_next
        have hindex : v.skip.finish.optind = v.optind + 1 := rfl
        cases ws with
        | nil =>
          rw [if_neg (by rw [hargc, hindex]; simp)]
          rfl
        | cons a ws =>
          have harg : v.skip.finish.arg v.skip.finish.optind = a := by
            show v.argv.getD (v.optind + 1) [] = a
            rw [List.getD_eq_getElem?_getD, hnext]
            rfl
          rw [if_pos (by rw [hargc, hindex]; simp), harg]
          rfl
      · simp only [if_neg hreq]
        rfl

/-- A short option. -/
theorem shortOption_eq (cfg : Config φ) (h : v.At prog pre w ws) (c : Byte) (cs : Str) :
    ∃ nextchar, v.shortOption cfg cfg.optstring c cs =
        ((readShort cfg prog ws.head? c cs).1,
          v.behind ((readShort cfg prog ws.head? c cs).2.words cs) nextchar) ∧
      nextchar.getD [] = (readShort cfg prog ws.head? c cs).2.ahead cs := by
  have hargc := h.argc_eq
  have hnext := h.arg_next
  have hprog : (v.pass cs).prog = prog := h.prog_eq
  have hpass : v.pass cs = v.behind (After.more.words cs) (some cs) := by
    unfold Vars.pass Vars.behind After.words
    split_ifs <;> rfl
  have hlast : cs = [] → { v.pass cs with nextchar := none } = v.behind 1 none := by
    intro hcs
    simp only [Vars.pass, Vars.behind, if_pos hcs]
  have hmore : cs ≠ [] → Vars.skip { v.pass cs with nextchar := none } = v.behind 1 none := by
    intro hcs
    simp only [Vars.pass, Vars.behind, Vars.skip, if_neg hcs]
  unfold Vars.shortOption
  simp only [hprog]
  cases hindex : myIndex cfg.optstring c with
  | none =>
    have hkind : shortKind cfg.optstring c = none := by simp only [shortKind, hindex]
    unfold readShort
    simp only [hkind]
    exact ⟨some cs, by rw [hpass], rfl⟩
  | some temp =>
    by_cases hcolon : c = colon
    · have hkind : shortKind cfg.optstring c = none := by simp only [shortKind, hindex, if_pos hcolon]
      unfold readShort
      simp only [hkind]
      simp only [if_pos hcolon]
      exact ⟨some cs, by rw [hpass], rfl⟩
    · simp only [if_neg hcolon]
      by_cases htakes : charAt temp 1 = colon
      · simp only [if_pos htakes]
        by_cases hoptional : charAt temp 2 = colon
        · have hkind : shortKind cfg.optstring c = some .optional := by
            simp only [shortKind, hindex, if_neg hcolon, if_pos htakes, if_pos hoptional]
          unfold readShort
          simp only [hkind]
          simp only [if_pos hoptional]
          by_cases hcs : cs = []
          · rw [if_neg (not_not_intro hcs), if_pos hcs]
            exact ⟨none, by rw [hlast hcs]; rfl, rfl⟩
          · rw [if_pos hcs, if_neg hcs]
            exact ⟨none, by rw [hmore hcs]; rfl, rfl⟩
        · have hkind : shortKind cfg.optstring c = some .required := by
            simp only [shortKind, hindex, if_neg hcolon, if_pos htakes, if_neg hoptional]
          unfold readShort
          simp only [hkind]
          simp only [if_neg hoptional]
          by_cases hcs : cs = []
          · have hpassIndex : (v.pass cs).optind = v.optind + 1 := if_pos hcs
            have hpassArgc : (v.pass cs).argc = v.optind + 1 + ws.length := hargc
            rw [if_neg (not_not_intro hcs), if_neg (not_not_intro hcs), hpassArgc]
            cases ws with
            | nil =>
              rw [if_pos (by rw [hpassIndex]; rfl)]
              exact ⟨none, by rw [hlast hcs]; rfl, rfl⟩
            | cons a ws =>
              have harg : (v.pass cs).arg (v.pass cs).optind = a := by
                rw [hpassIndex]
                show v.argv.getD (v.optind + 1) [] = a
                rw [List.getD_eq_getElem?_getD, hnext]
                rfl
              rw [if_neg (by rw [hpassIndex]; simp), harg]
              exact ⟨none, by rw [hlast hcs]; rfl, rfl⟩
          · rw [if_pos hcs, if_pos hcs]
            exact ⟨none, by rw [hmore hcs]; rfl, rfl⟩
      · have hkind : shortKind cfg.optstring c = some .no := by
          simp only [shortKind, hindex, if_neg hcolon, if_neg htakes]
        unfold readShort
        simp only [hkind]
        simp only [if_neg htakes]
        exact ⟨some cs, by rw [hpass], rfl⟩

/-- **The decoding of characters reads the next option of the word.** -/
theorem decode_eq (cfg : Config φ) (h : v.At prog pre w ws) {c : Byte} {cs : Str} (hzero : ∀ d ∈ c :: cs, d ≠ 0) :
    ∃ nextchar, v.decode cfg cfg.optstring (c :: cs) =
        ((readNext cfg prog w ws.head? c cs).1,
          v.behind ((readNext cfg prog w ws.head? c cs).2.words cs) nextchar) ∧
      nextchar.getD [] = (readNext cfg prog w ws.head? c cs).2.ahead cs := by
  have hshort := shortOption_eq cfg h c cs
  unfold Vars.decode readNext
  simp only [h.arg_eq]
  cases hlongopts : cfg.longopts with
  | none => exact hshort
  | some opts =>
    simp only
    split_ifs with hlong
    · rw [longOption_eq h hzero opts]
      cases readLong cfg opts prog w ws.head? (c :: cs) with
      | none => exact hshort
      | some x =>
        obtain ⟨r, takes⟩ := x
        cases takes with
        | false => exact ⟨some [], rfl, rfl⟩
        | true => exact ⟨some [], rfl, rfl⟩
    · exact hshort

end decode

/-! ### The parts of `argv` -/

/-- The words behind the program's name: those known to be in their place, those that are no options,
the options read since, and what is not read. -/
structure Place (v : Vars) (prog : Str) (O N P R : List Str) : Prop where
  argv : v.argv = prog :: (O ++ (N ++ (P ++ R)))
  firstNonopt : v.firstNonopt = 1 + O.length
  lastNonopt : v.lastNonopt = 1 + O.length + N.length
  optind : v.optind = 1 + O.length + N.length + P.length

namespace Place

variable {v : Vars} {prog w : Str} {O N P R ws : List Str}

theorem argc_eq (h : Place v prog O N P R) : v.argc = v.optind + R.length := by
  rw [Vars.argc, h.argv, h.optind]
  simp only [List.length_cons, List.length_append]
  omega

theorem at_ (h : Place v prog O N P (w :: ws)) : v.At prog (O ++ (N ++ P)) w ws where
  argv := by
    rw [h.argv]
    simp
  optind := by
    rw [h.optind]
    simp only [List.length_append]
    omega

theorem behind_one (h : Place v prog O N P (w :: ws)) (nextchar : Option Str) :
    Place (v.behind 1 nextchar) prog O N (P ++ [w]) ws where
  argv := by
    show v.argv = _
    rw [h.argv]
    simp
  firstNonopt := h.firstNonopt
  lastNonopt := h.lastNonopt
  optind := by
    show v.optind + 1 = _
    rw [h.optind, List.length_append]
    rfl

theorem behind_two {a : Str} (h : Place v prog O N P (w :: a :: ws)) (nextchar : Option Str) :
    Place (v.behind 2 nextchar) prog O N (P ++ [w, a]) ws where
  argv := by
    show v.argv = _
    rw [h.argv]
    simp
  firstNonopt := h.firstNonopt
  lastNonopt := h.lastNonopt
  optind := by
    show v.optind + 2 = _
    rw [h.optind, List.length_append]
    rfl

/-- The options read since go in front of the words that are none. -/
theorem exchange (h : Place v prog O N P R) : Place v.exchange prog (O ++ P) N [] R where
  argv := by
    have hlen : (prog :: O).length = 1 + O.length := by
      rw [List.length_cons, Nat.add_comm]
    have hmoved := exchangeSegments_eq (prog :: O) N P R
    rw [hlen] at hmoved
    show exchangeSegments v.argv v.firstNonopt v.lastNonopt v.optind = _
    rw [h.argv, h.firstNonopt, h.lastNonopt, h.optind]
    simpa using hmoved
  firstNonopt := by
    show v.firstNonopt + (v.optind - v.lastNonopt) = _
    rw [h.firstNonopt, h.lastNonopt, h.optind, List.length_append]
    omega
  lastNonopt := by
    show v.optind = _
    rw [h.optind, List.length_append]
    omega
  optind := by
    show v.optind = _
    rw [h.optind, List.length_append, List.length_nil]
    omega

/-- The options read since are in front, and the words that are none behind them. -/
theorem gather (h : Place v prog O N P R) :
    v.gather.argv = prog :: (O ++ (P ++ (N ++ R))) ∧ v.gather.firstNonopt = 1 + O.length + P.length ∧
      v.gather.optind = v.optind ∧ v.gather.ordering = v.ordering ∧
      v.gather.nextchar = v.nextchar := by
  have hfirst := h.firstNonopt
  have hlast := h.lastNonopt
  have hoptind := h.optind
  unfold Vars.gather
  split_ifs with hboth hoptions
  · refine ⟨?_, ?_, rfl, rfl, rfl⟩
    · rw [h.exchange.argv]
      simp
    · rw [h.exchange.firstNonopt, List.length_append, Nat.add_assoc]
  · have hN : N = [] := List.length_eq_zero_iff.mp (by omega)
    subst hN
    refine ⟨?_, ?_, rfl, rfl, rfl⟩
    · rw [h.argv]
      simp
    · show v.optind = _
      rw [h.optind, List.length_nil, Nat.add_zero]
  · have hP : P = [] := List.length_eq_zero_iff.mp (by omega)
    subst hP
    refine ⟨?_, ?_, rfl, rfl, rfl⟩
    · rw [h.argv]
      simp
    · rw [hfirst, List.length_nil, Nat.add_zero]

/-- What is done at the beginning of a word. -/
theorem permuted (h : Place v prog O N P R) :
    Place v.permuted prog (O ++ P) (N ++ R.takeWhile isNonoption) []
      (R.dropWhile isNonoption) := by
  obtain ⟨hargv, hfirst, hoptind, -, -⟩ := h.gather
  have hR : R.takeWhile isNonoption ++ R.dropWhile isNonoption = R :=
    List.takeWhile_append_dropWhile
  have hdrop : v.gather.argv.drop v.gather.optind = R := by
    have hlen : v.gather.optind = (prog :: (O ++ (P ++ N))).length := by
      rw [hoptind, h.optind]
      simp only [List.length_cons, List.length_append]
      omega
    have hlist : v.gather.argv = (prog :: (O ++ (P ++ N))) ++ R := by
      rw [hargv]
      simp
    rw [hlen, hlist, List.drop_left]
  have hskip : v.permuted.optind =
      1 + O.length + N.length + P.length + (R.takeWhile isNonoption).length := by
    show v.gather.optind + ((v.gather.argv.drop v.gather.optind).takeWhile isNonoption).length = _
    rw [hdrop, hoptind, h.optind]
  refine ⟨?_, ?_, ?_, ?_⟩
  · show v.gather.argv = _
    rw [hargv]
    conv_lhs => rw [← hR]
    simp
  · show v.gather.firstNonopt = _
    rw [hfirst, List.length_append, Nat.add_assoc]
  · show v.permuted.optind = _
    rw [hskip, List.length_append, List.length_append]
    omega
  · rw [hskip, List.length_append, List.length_append, List.length_nil]
    omega

theorem permuted_ordering (h : Place v prog O N P R) : v.permuted.ordering = v.ordering :=
  h.gather.2.2.2.1

theorem permuted_nextchar (h : Place v prog O N P R) : v.permuted.nextchar = v.nextchar :=
  h.gather.2.2.2.2

theorem endOfOptions_eq (h : Place v prog O N P R) (hR : R.head? ≠ some dashes) :
    v.endOfOptions = v := by
  unfold Vars.endOfOptions
  rw [if_neg]
  rintro ⟨hne, hdashes⟩
  cases R with
  | nil => exact hne (by rw [h.argc_eq]; rfl)
  | cons w ws =>
    rw [h.at_.arg_eq] at hdashes
    exact hR (by rw [hdashes]; rfl)

/-- `--` goes behind the options, and what is behind it is not read. -/
theorem endOfOptions (h : Place v prog O N P (dashes :: ws)) :
    v.endOfOptions.argv = prog :: (O ++ (P ++ (dashes :: (N ++ ws)))) ∧
      v.endOfOptions.firstNonopt = 1 + O.length + P.length + 1 ∧
      v.endOfOptions.lastNonopt = v.endOfOptions.argc ∧
      v.endOfOptions.optind = v.endOfOptions.argc := by
  have hskip : Place v.skip prog O N (P ++ [dashes]) ws := h.behind_one v.nextchar
  have hat : v.optind ≠ v.argc ∧ v.arg v.optind = dashes :=
    ⟨by rw [h.argc_eq]; simp, h.at_.arg_eq⟩
  have hfirst := hskip.firstNonopt
  have hlast := hskip.lastNonopt
  have hoptind := hskip.optind
  rw [List.length_append, List.length_singleton] at hoptind
  have hargc : v.argc = 1 + O.length + P.length + 1 + N.length + ws.length := by
    rw [h.argc_eq, h.optind, List.length_cons]
    omega
  have hpass : v.passDashes.argv = prog :: (O ++ (P ++ (dashes :: (N ++ ws)))) ∧
      v.passDashes.firstNonopt = 1 + O.length + P.length + 1 := by
    unfold Vars.passDashes
    split_ifs with hboth hnone
    · refine ⟨?_, ?_⟩
      · rw [hskip.exchange.argv]
        simp
      · rw [hskip.exchange.firstNonopt, List.length_append, List.length_append,
          List.length_singleton]
        omega
    · have hN : N = [] := List.length_eq_zero_iff.mp (by omega)
      subst hN
      refine ⟨?_, ?_⟩
      · show v.argv = _
        rw [h.argv]
        simp
      · show v.skip.optind = _
        rw [hoptind, List.length_nil]
        omega
    · omega
  have hend : v.endOfOptions = { v.passDashes with lastNonopt := v.argc, optind := v.argc } :=
    if_pos hat
  have hlen : v.endOfOptions.argc = v.argc := by
    rw [hend]
    show v.passDashes.argv.length = _
    rw [hpass.1, hargc]
    simp only [List.length_cons, List.length_append]
    omega
  rw [hlen, hend]
  exact ⟨hpass.1, hpass.2, rfl, rfl⟩

end Place

/-! ### The calls for one word -/

variable {cfg : Config φ} {prog w : Str} {O N P ws : List Str}

theorem getoptInternal_eq {v : Vars} (h : v.optind ≠ 0) :
    getoptInternal cfg v = v.call cfg cfg.optstring := if_neg h

/-- The next option of a word.  The state `x` is about to decode the characters in the state `v`. -/
theorem leads_next {c : Byte} {cs : Str} {v x : Vars} (acc : List (Ret φ))
    (hx : getoptInternal cfg x = v.resume cfg cfg.optstring (c :: cs))
    (h : Place v prog O N P (w :: ws)) (hzero : ∀ d ∈ c :: cs, d ≠ 0) :
    ∃ v' : Vars, Leads (scanStep cfg) (x, acc)
        (v', acc ++ [(readNext cfg prog w ws.head? c cs).1]) ∧
      v'.ahead = (readNext cfg prog w ws.head? c cs).2.ahead cs ∧ v'.ordering = v.ordering ∧
      ((readNext cfg prog w ws.head? c cs).2.words cs = 0 → Place v' prog O N P (w :: ws)) ∧
      ((readNext cfg prog w ws.head? c cs).2.words cs = 1 → Place v' prog O N (P ++ [w]) ws) ∧
      ((readNext cfg prog w ws.head? c cs).2.words cs = 2 →
        ∃ a ws', ws = a :: ws' ∧ Place v' prog O N (P ++ [w, a]) ws') := by
  obtain ⟨nextchar, hdecode, hahead⟩ := decode_eq cfg h.at_ hzero
  have hstep : scanStep cfg (x, acc) = .going
      (v.behind ((readNext cfg prog w ws.head? c cs).2.words cs) nextchar,
        acc ++ [(readNext cfg prog w ws.head? c cs).1]) := by
    rw [scanStep, hx, Vars.resume, hdecode]
  refine ⟨_, Leads.going hstep (Leads.refl _), hahead, rfl, ?_, ?_, ?_⟩
  · intro hwords
    rw [hwords]
    exact ⟨h.argv, h.firstNonopt, h.lastNonopt, h.optind⟩
  · intro hwords
    rw [hwords]
    exact h.behind_one nextchar
  · intro hwords
    rw [hwords]
    cases ws with
    | nil =>
      have hnone := readNext_none cfg prog w c cs
      cases hafter : (readNext cfg prog w ([] : List Str).head? c cs).2 with
      | more =>
        rw [hafter, After.words] at hwords
        split_ifs at hwords
        cases hwords
      | done =>
        rw [hafter] at hwords
        cases hwords
      | takes => exact absurd hafter hnone
    | cons a ws => exact ⟨a, ws, rfl, h.behind_two nextchar⟩

/-- **All options of a word.** -/
theorem leads_word {c : Byte} {cs : Str} {v x : Vars} (acc : List (Ret φ))
    (hx : getoptInternal cfg x = v.resume cfg cfg.optstring (c :: cs))
    (h : Place v prog O N P (w :: ws)) (hzero : ∀ d ∈ c :: cs, d ≠ 0) :
    ∃ v' : Vars, Leads (scanStep cfg) (x, acc)
        (v', acc ++ (readWord cfg prog w ws.head? (c :: cs)).1) ∧
      v'.ahead = [] ∧ v'.ordering = v.ordering ∧
      ((readWord cfg prog w ws.head? (c :: cs)).2 = false → Place v' prog O N (P ++ [w]) ws) ∧
      ((readWord cfg prog w ws.head? (c :: cs)).2 = true →
        ∃ a ws', ws = a :: ws' ∧ Place v' prog O N (P ++ [w, a]) ws') := by
  induction hn : cs.length using Nat.strong_induction_on generalizing c cs v x acc with
  | _ n ih =>
    obtain ⟨v', hleads, hahead, hordering, hzeroWords, hone, htwo⟩ :=
      leads_next acc hx h hzero
    rw [readWord]
    cases hnext : readNext cfg prog w ws.head? c cs with
    | mk r after =>
      rw [hnext] at hleads hahead hzeroWords hone htwo
      cases after with
      | done =>
        exact ⟨v', hleads, hahead, hordering, fun _ => hone rfl, fun h => Bool.noConfusion h⟩
      | takes =>
        exact ⟨v', hleads, hahead, hordering, fun h => Bool.noConfusion h, fun _ => htwo rfl⟩
      | more =>
        cases cs with
        | nil =>
          exact ⟨v', hleads, hahead, hordering, fun _ => hone rfl, fun h => Bool.noConfusion h⟩
        | cons d cs =>
          have hplace := hzeroWords rfl
          have hne : v'.optind ≠ 0 := by
            rw [hplace.optind]
            omega
          have hcall : getoptInternal cfg v' = v'.resume cfg cfg.optstring (d :: cs) := by
            have hahead : v'.ahead = d :: cs := hahead
            rw [getoptInternal_eq hne, Vars.call, hahead, if_neg (List.cons_ne_nil d cs)]
          obtain ⟨v'', hrest, hdone, hsame, hfalse, htrue⟩ := ih cs.length
            (by rw [← hn]; exact Nat.lt_succ_self _) (acc ++ [r]) hcall hplace
            (fun e he => hzero e (List.mem_cons_of_mem c he)) rfl
          refine ⟨v'', ?_, hdone, hsame.trans hordering, hfalse, htrue⟩
          have hall := hleads.trans hrest
          rwa [List.append_assoc] at hall

/-! ### All calls -/

/-- No word has a zero in it. -/
def Terminated (ws : List Str) : Prop := ∀ w ∈ ws, ∀ c ∈ w, c ≠ 0

theorem isNonoption_dashes : isNonoption dashes = false := by decide

/-- An option word has characters to decode, and they are characters of the word. -/
theorem optionChars_cons (cfg : Config φ) {w : Str} (hw : isNonoption w = false)
    (hdashes : w ≠ dashes) : ∃ c cs, optionChars cfg w = c :: cs ∧ ∀ d ∈ c :: cs, d ∈ w := by
  cases w with
  | nil => cases hw
  | cons a w =>
    cases w with
    | nil =>
      simp [isNonoption, charAt] at hw
    | cons b w =>
      have ha : a = dash := by
        by_contra hne
        simp [isNonoption, charAt, hne] at hw
      unfold optionChars
      split_ifs with hlong
      · cases w with
        | nil =>
          have hb : b = dash := by
            simpa [charAt] using (Bool.and_eq_true_iff.mp hlong).2
          exact absurd (by rw [ha, hb]; rfl) hdashes
        | cons c cs =>
          exact ⟨c, cs, rfl, fun d hd => List.mem_cons_of_mem a (List.mem_cons_of_mem b hd)⟩
      · exact ⟨b, w, rfl, fun d hd => List.mem_cons_of_mem a hd⟩

namespace Place

variable {v : Vars}

/-- No word is left. -/
theorem seek_nil (cfg : Config φ) (h : Place v prog O N P []) (hNP : N = [] ∨ P = []) :
    ∃ v' : Vars, v.seek cfg = .eof v' ∧ v'.argv = v.argv ∧ v'.optind = 1 + O.length + P.length := by
  have hargc : v.optind = v.argc := by
    rw [h.argc_eq]
    rfl
  have hfirst := h.firstNonopt
  have hlast := h.lastNonopt
  have hoptind := h.optind
  unfold Vars.seek
  rw [h.endOfOptions_eq (fun h => nomatch h), if_pos hargc]
  split_ifs with hne
  · refine ⟨_, rfl, rfl, ?_⟩
    show v.firstNonopt = _
    obtain hN | hP := hNP
    · rw [hN, List.length_nil] at hlast
      omega
    · rw [hP, List.length_nil, Nat.add_zero]
      exact hfirst
  · refine ⟨_, rfl, rfl, ?_⟩
    have hN : N = [] := List.length_eq_zero_iff.mp (by omega)
    rw [hN, List.length_nil, Nat.add_zero] at hoptind
    exact hoptind

theorem seek_dashes (cfg : Config φ) (h : Place v prog O N P (dashes :: ws)) :
    ∃ v' : Vars, v.seek cfg = .eof v' ∧
      v'.argv = prog :: (O ++ (P ++ (dashes :: (N ++ ws)))) ∧
      v'.optind = 1 + O.length + P.length + 1 := by
  obtain ⟨hargv, hfirst, hlast, hoptind⟩ := h.endOfOptions
  unfold Vars.seek
  simp only [hoptind, if_true]
  by_cases hne : v.endOfOptions.firstNonopt ≠ v.endOfOptions.lastNonopt
  · rw [if_pos hne]
    exact ⟨_, rfl, hargv, hfirst⟩
  · rw [if_neg hne]
    refine ⟨_, rfl, hargv, ?_⟩
    rw [hoptind, ← hlast, ← not_not.mp hne, hfirst]

theorem seek_nonoption (cfg : Config φ) (h : Place v prog O N P (w :: ws)) (hw : isNonoption w = true) :
    v.seek cfg = if v.ordering = .requireOrder then .eof v else .nonoption w v.skip := by
  have hne : (w :: ws).head? ≠ some dashes := by
    intro hhead
    rw [Option.some.inj hhead, isNonoption_dashes] at hw
    cases hw
  have hargc : v.optind ≠ v.argc := by
    rw [h.argc_eq]
    simp
  unfold Vars.seek
  rw [h.endOfOptions_eq hne]
  simp only [if_neg hargc, h.at_.arg_eq, hw, if_true]

theorem seek_option (cfg : Config φ) (h : Place v prog O N P (w :: ws)) (hw : isNonoption w = false)
    (hdashes : w ≠ dashes) : v.seek cfg = .decode (optionChars cfg w) v := by
  have hne : (w :: ws).head? ≠ some dashes := fun hhead => hdashes (Option.some.inj hhead)
  have hargc : v.optind ≠ v.argc := by
    rw [h.argc_eq]
    simp
  unfold Vars.seek
  rw [h.endOfOptions_eq hne]
  simp only [if_neg hargc, h.at_.arg_eq, hw, Bool.false_eq_true, if_false]
  rfl

end Place

/-- The calls from `x` on return the options of the words `R`, and leave `argv` with the options in
front. -/
def EndsReading (cfg : Config φ) (ordering : ArgOrder) (prog : Str) (x : Vars) (acc : List (Ret φ))
    (O N P R : List Str) : Prop :=
  ∃ v' : Vars, EndsAs (scanStep cfg) (x, acc)
      (acc ++ (readWords cfg ordering prog R).results, v') ∧
    v'.argv = prog :: (O ++ (P ++ ((readWords cfg ordering prog R).options ++
      (N ++ (readWords cfg ordering prog R).operands)))) ∧
    v'.optind = 1 + O.length + P.length + (readWords cfg ordering prog R).options.length

variable {ordering : ArgOrder} {R : List Str} {x v : Vars}

/-- What is behind options that are read first. -/
theorem EndsReading.leads {acc : List (Ret φ)} {v' : Vars} {rs : List (Ret φ)} {ws' consumed : List Str}
    (hleads : Leads (scanStep cfg) (x, acc) (v', acc ++ rs))
    (h : EndsReading cfg ordering prog v' (acc ++ rs) O N (P ++ consumed) ws')
    (hread : readWords cfg ordering prog R =
      ⟨rs ++ (readWords cfg ordering prog ws').results,
        consumed ++ (readWords cfg ordering prog ws').options,
        (readWords cfg ordering prog ws').operands⟩) :
    EndsReading cfg ordering prog x acc O N P R := by
  obtain ⟨v'', hends, hargv, hoptind⟩ := h
  unfold EndsReading
  rw [hread]
  refine ⟨v'', ?_, ?_, ?_⟩
  · rw [List.append_assoc] at hends
    exact (hleads _).mpr hends
  · rw [hargv]
    simp
  · rw [hoptind, List.length_append, List.length_append]
    omega

/-- The calls from a place where the words that are no options are skipped. -/
theorem ends_seek (acc : List (Ret φ)) (hx : getoptInternal cfg x = (v.seek cfg).outcome cfg cfg.optstring)
    (h : Place v prog O N P R) (hahead : v.ahead = []) (hordering : v.ordering = ordering)
    (hNP : N = [] ∨ P = []) (hfix : ordering ≠ .permute → O = [] ∧ N = [])
    (hskipped : ordering = .permute → ∀ w ws, R = w :: ws → isNonoption w = false)
    (hR : Terminated R)
    (ih : ∀ (v' : Vars) (acc' : List (Ret φ)) (P' R' : List Str), R'.length < R.length →
      Terminated R' → v'.ahead = [] → v'.ordering = ordering → Place v' prog O N P' R' →
      EndsReading cfg ordering prog v' acc' O N P' R') :
    EndsReading cfg ordering prog x acc O N P R := by
  cases R with
  | nil =>
    obtain ⟨v', hseek, hargv, hoptind⟩ := h.seek_nil cfg hNP
    refine ⟨v', ?_, ?_, hoptind⟩
    · rw [endsAs_done (r := (acc, v')) (by rw [scanStep, hx, hseek]; rfl)]
      rw [readWords, List.append_nil]
    · rw [hargv, h.argv]
      obtain rfl | rfl := hNP
      · simp [readWords]
      · simp [readWords]
  | cons w ws =>
    have hws : Terminated ws := fun a ha => hR a (List.mem_cons_of_mem w ha)
    have hlt : ws.length < (w :: ws).length := Nat.lt_succ_self _
    by_cases hdashes : w = dashes
    · subst hdashes
      obtain ⟨v', hseek, hargv, hoptind⟩ := h.seek_dashes cfg
      have hread : readWords cfg ordering prog (dashes :: ws) = ⟨[], [dashes], ws⟩ := by
        rw [readWords.eq_def]
        exact if_pos rfl
      unfold EndsReading
      rw [hread]
      refine ⟨v', ?_, ?_, hoptind⟩
      · rw [endsAs_done (r := (acc, v')) (by rw [scanStep, hx, hseek]; rfl), List.append_nil]
      · rw [hargv]
        simp
    · by_cases hw : isNonoption w = true
      · have hseek := h.seek_nonoption cfg hw
        rw [hordering] at hseek
        cases ordering with
        | permute => exact absurd hw (by rw [hskipped rfl w ws rfl]; exact Bool.false_ne_true)
        | requireOrder =>
          obtain ⟨rfl, rfl⟩ := hfix (fun h => by cases h)
          have hread : readWords cfg .requireOrder prog (w :: ws) = ⟨[], [], w :: ws⟩ := by
            rw [readWords.eq_def]
            simp only [if_neg hdashes, if_pos hw]
          rw [if_pos rfl] at hseek
          unfold EndsReading
          rw [hread]
          refine ⟨v, ?_, ?_, ?_⟩
          · rw [endsAs_done (r := (acc, v)) (by rw [scanStep, hx, hseek]; rfl), List.append_nil]
          · rw [h.argv]
            simp
          · rw [h.optind]
            simp
        | returnInOrder =>
          have hread : readWords cfg .returnInOrder prog (w :: ws) =
              ⟨[operand cfg w] ++ (readWords cfg .returnInOrder prog ws).results,
                [w] ++ (readWords cfg .returnInOrder prog ws).options,
                (readWords cfg .returnInOrder prog ws).operands⟩ := by
            rw [readWords.eq_def]
            simp only [if_neg hdashes, if_pos hw]
            rfl
          rw [if_neg (fun h => by cases h)] at hseek
          have hgoing : scanStep cfg (x, acc) = .going (v.skip, acc ++ [operand cfg w]) := by
            rw [scanStep, hx, hseek]
            rfl
          exact EndsReading.leads (Leads.going hgoing (Leads.refl _))
            (ih v.skip _ _ ws hlt hws hahead hordering (h.behind_one v.nextchar)) hread
      · have hw : isNonoption w = false := Bool.eq_false_iff.mpr hw
        have hseek := h.seek_option cfg hw hdashes
        obtain ⟨c, cs, hchars, hmem⟩ := optionChars_cons cfg hw hdashes
        have hcall : getoptInternal cfg x = v.resume cfg cfg.optstring (c :: cs) := by
          rw [hx, hseek, hchars]
          rfl
        obtain ⟨v', hleads, hdone, hsame, hfalse, htrue⟩ := leads_word acc hcall h
          (fun d hd => hR w (List.mem_cons_self ..) d (hmem d hd))
        rw [← hchars] at hleads hfalse htrue
        cases htakes : (readWord cfg prog w ws.head? (optionChars cfg w)).2 with
        | false =>
          exact EndsReading.leads hleads
            (ih v' _ _ ws hlt hws hdone (hsame.trans hordering) (hfalse htakes))
            (readWords_alone hdashes hw htakes)
        | true =>
          obtain ⟨a, ws', rfl, hplace⟩ := htrue htakes
          exact EndsReading.leads hleads
            (ih v' _ _ ws' (Nat.lt_succ_of_lt (Nat.lt_succ_self _))
              (fun b hb => hws b (List.mem_cons_of_mem a hb)) hdone (hsame.trans hordering) hplace)
            (readWords_takes hdashes hw htakes)

/-- **All calls.**  From a place where a word is done. -/
theorem ends_words (acc : List (Ret φ)) (h : Place v prog O N P R) (hahead : v.ahead = [])
    (hordering : v.ordering = ordering) (hfix : ordering ≠ .permute → O = [] ∧ N = [])
    (hR : Terminated R) : EndsReading cfg ordering prog v acc O N P R := by
  induction hn : R.length using Nat.strong_induction_on generalizing v acc O N P R with
  | _ n ih =>
    have hne : v.optind ≠ 0 := by
      rw [h.optind]
      omega
    have hcall : getoptInternal cfg v = (v.advance cfg).outcome cfg cfg.optstring := by
      rw [getoptInternal_eq hne, Vars.call, if_pos hahead, Vars.fresh]
    by_cases hpermute : ordering = .permute
    · subst hpermute
      have hseek : getoptInternal cfg v = (v.permuted.seek cfg).outcome cfg cfg.optstring := by
        rw [hcall, Vars.advance, if_pos hordering]
      have hlen : (R.dropWhile isNonoption).length ≤ n := hn ▸ (List.dropWhile_suffix _).length_le
      have hrest := ends_seek acc hseek h.permuted
        (show v.permuted.ahead = [] by rw [Vars.ahead, h.permuted_nextchar]; exact hahead)
        (h.permuted_ordering.trans hordering) (.inr rfl) (fun h => absurd rfl h)
        (fun _ w ws hws => by
          have hhead := List.head?_dropWhile_not isNonoption R
          rw [hws] at hhead
          simpa using hhead)
        (fun w hw => hR w ((List.dropWhile_suffix _).subset hw))
        (fun v' acc' P' R' hlt hR' hahead' hordering' h' =>
          ih R'.length (hlt.trans_le hlen) acc' h' hahead' hordering' (fun h => absurd rfl h) hR' rfl)
      obtain ⟨v', hends, hargv, hoptind⟩ := hrest
      unfold EndsReading
      rw [readWords_permute]
      refine ⟨v', hends, ?_, ?_⟩
      · rw [hargv]
        simp
      · rw [hoptind, List.length_append]
        simp only [List.length_nil]
        omega
    · have hseek : getoptInternal cfg v = (v.seek cfg).outcome cfg cfg.optstring := by
        rw [hcall, Vars.advance, if_neg (by rw [hordering]; exact hpermute)]
      exact ends_seek acc hseek h hahead hordering (.inl (hfix hpermute).2) hfix
        (fun hp => absurd hp hpermute) hR
        (fun v' acc' P' R' hlt hR' hahead' hordering' h' =>
          ih R'.length (hn ▸ hlt) acc' h' hahead' hordering' hfix hR' rfl)

/-! ### A command line -/

/-- `optstring` asks for none of the other orders with a sign in front. -/
def Config.Unsigned (cfg : Config φ) : Prop :=
  charAt cfg.optstring 0 ≠ dash ∧ charAt cfg.optstring 0 ≠ plus

/-- The order without a sign. -/
def Config.order (cfg : Config φ) : ArgOrder :=
  if cfg.posixlyCorrect then .requireOrder else .permute

/-- The variables behind the initialization. -/
def initialVars (cfg : Config φ) (argv : List Str) : Vars where
  argv := argv
  optind := 1
  nextchar := none
  firstNonopt := 1
  lastNonopt := 1
  ordering := cfg.order

theorem initialize_eq (hsign : cfg.Unsigned) (v : Vars) (argv : List Str) :
    (v.start argv).initialized cfg = (initialVars cfg argv, cfg.optstring) := by
  unfold Vars.initialized
  simp only [if_neg hsign.1, if_neg hsign.2]
  unfold initialVars Config.order
  split_ifs <;> rfl

/-- The calls on a command line, whatever the variables were. -/
theorem getopt_ends (cfg : Config φ) (hsign : cfg.Unsigned) (prog : Str) (args : List Str)
    (hargs : Terminated args) :
    ∃ v' : Vars, Returns cfg (prog :: args) (readWords cfg cfg.order prog args).results v' ∧
      v'.argv = prog :: ((readWords cfg cfg.order prog args).options ++
        (readWords cfg cfg.order prog args).operands) ∧
      v'.optind = 1 + (readWords cfg cfg.order prog args).options.length := by
  have hplace : Place (initialVars cfg (prog :: args)) prog [] [] [] args := ⟨rfl, rfl, rfl, rfl⟩
  obtain ⟨v', hends, hargv, hoptind⟩ := @ends_words _ cfg prog [] [] [] cfg.order args _ [] hplace rfl
    (show (initialVars cfg (prog :: args)).ordering = cfg.order from rfl) (fun _ => ⟨rfl, rfl⟩) hargs
  refine ⟨v', fun v => ?_, hargv, hoptind⟩
  have hfirst : getoptInternal cfg (v.start (prog :: args)) =
      getoptInternal cfg (initialVars cfg (prog :: args)) := by
    have hzero : (v.start (prog :: args)).optind = 0 := rfl
    rw [getoptInternal_eq (v := initialVars cfg (prog :: args)) Nat.one_ne_zero, getoptInternal,
      if_pos hzero, initialize_eq hsign]
  have hstep : scanStep cfg (v.start (prog :: args), ([] : List (Ret φ))) =
      scanStep cfg (initialVars cfg (prog :: args), []) := by
    rw [scanStep, scanStep, hfirst]
  exact (endsAs_congr hstep).mpr hends

/-- **`getopt_long` on a command line.**  The calls end, and return the options of the words one after
the other.  They leave `argv` with the same words, no word lost: those of options in front, in the order
they had, and `optind` at the first of the others, which keep their order too. -/
theorem getopt_returns (cfg : Config φ) (hsign : cfg.Unsigned) (prog : Str) (args : List Str)
    (hargs : Terminated args) :
    ∃ (v' : Vars) (options operands : List Str),
      Returns cfg (prog :: args) (readWords cfg cfg.order prog args).results v' ∧
      v'.argv = prog :: (options ++ operands) ∧ v'.optind = 1 + options.length ∧
      options = (readWords cfg cfg.order prog args).options ∧
      operands = (readWords cfg cfg.order prog args).operands ∧
      (options ++ operands).Perm args ∧ options.Sublist args ∧ operands.Sublist args := by
  obtain ⟨v', hreturns, hargv, hoptind⟩ := getopt_ends cfg hsign prog args hargs
  obtain ⟨hperm, hos, hops⟩ := readWords_order cfg cfg.order prog args
  exact ⟨v', _, _, hreturns, hargv, hoptind, rfl, rfl, hperm, hos, hops⟩

/-- A word that is no option, and an option with its argument behind it. -/
theorem getopt_returns_behind :
    ∃ v' : Vars, Returns (φ := Unit) ⟨chars "t:", none, false, true, false⟩
        [chars "risu", chars "img", chars "-t", chars "x"] [short 0x74 (some (chars "x"))] v' ∧
      v'.argv = [chars "risu", chars "-t", chars "x", chars "img"] ∧ v'.optind = 3 := by
  obtain ⟨v', options, operands, hreturns, hargv, hoptind, rfl, rfl, -⟩ :=
    getopt_returns (⟨chars "t:", none, false, true, false⟩ : Config Unit) ⟨by decide, by decide⟩
      (chars "risu") [chars "img", chars "-t", chars "x"] (by unfold Terminated; decide)
  exact ⟨v', hreturns, hargv, hoptind⟩

end Risu.Shell.Getopt
