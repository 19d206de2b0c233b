import Mathlib.Data.Fintype.Pi
import Mathlib.Tactic.FinCases
import Risu.Ppc64.Commands
import Risu.Shell.Permute

/-!
# The command line of a MacOS 9 command (`risu_main`, its option loop)

The MacOS 9 program has no C library with `getopt_long` and uses the one of `compat/getopt.c`, whose
`BAD_OPTION` is zero, the value that also says that a flag was set.

* `strtoul16`, `longopts`, `commandConfig` — what the loop is given;
* `round` — one turn of the loop; `LoopEnd` — how it ends;
* `Understood`, `optOf` — what the loop makes of what `getopt_long` returns;
* `commandOf` — the command a list of words stands for;
* `optionLoop_ends` — the loop ends with that command;
* `commandOf_image`, `commandOf_mistyped` — where the image is named, and what a mistake does.
-/

namespace Risu.Ppc64

open Lib Risu.Shell.Getopt

/-! ### Numbers -/

/-- The value of a hexadecimal digit. -/
def hexDigit (c : Byte) : Option ℕ :=
  if 0x30 ≤ c.toNat ∧ c.toNat ≤ 0x39 then some (c.toNat - 0x30)
  else if 0x41 ≤ c.toNat ∧ c.toNat ≤ 0x46 then some (c.toNat - 0x37)
  else if 0x61 ≤ c.toNat ∧ c.toNat ≤ 0x66 then some (c.toNat - 0x57)
  else none

/-- The number the digits at the front stand for. -/
def hexValue : ℕ → Str → ℕ
  | acc, [] => acc
  | acc, c :: s =>
    match hexDigit c with
    | some d => hexValue (16 * acc + d) s
    | none => acc

/-- `isspace` -/
def isSpace (c : Byte) : Bool := c = 0x20 || (9 ≤ c.toNat && c.toNat ≤ 13)

/-- `0x` in front of a digit. -/
def dropHexPrefix (s : Str) : Str :=
  match s with
  | z :: x :: c :: s =>
    if z = 0x30 ∧ (x = 0x78 ∨ x = 0x58) ∧ (hexDigit c).isSome then c :: s else z :: x :: c :: s
  | s => s

/-- `strtoul(s, 0, 16)`, where `unsigned long` has 32 bits. -/
def strtoul16 (s : Str) : BitVec 32 :=
  let s := s.dropWhile isSpace
  let negative := charAt s 0 == dash
  let s := if charAt s 0 = dash ∨ charAt s 0 = plus then s.tail else s
  let n := hexValue 0 (dropHexPrefix s)
  if 2 ^ 32 ≤ n then BitVec.ofNat 32 (2 ^ 32 - 1)
  else if negative then -BitVec.ofNat 32 n
  else BitVec.ofNat 32 n

/-! ### What the loop is given -/

/-- The variables flags point to: `ismaster`. -/
inductive Flag where
  | ismaster

/-- `h:p:t:` -/
def shortopts : Str := [0x68, 0x3a, 0x70, 0x3a, 0x74, 0x3a]

def defaultLongopts : List (LongOpt Flag) :=
  [⟨chars "help", .no, none, 0x3f⟩,
    ⟨chars "master", .no, some .ismaster, 1⟩,
    ⟨chars "host", .required, none, 0x68⟩,
    ⟨chars "port", .required, none, 0x70⟩,
    ⟨chars "trace", .required, none, 0x74⟩]

/-- `FIRST_ARCH_OPT` -/
def firstArchOpt : ℕ := 0x100

/-- The names of `extra_opts`. -/
def extraNames : List String :=
  ["ccr_mask", "fpscr_mask", "fpregs_mask", "vrregs_mask", "fp_opts", "gregs_mask", "xer_mask",
    "mq_mask", "cpu_opts"]

def extraOpts : List (LongOpt Flag) :=
  extraNames.zipIdx.map fun x => ⟨chars x.1, .required, none, ((firstArchOpt + x.2 : ℕ) : Int)⟩

/-- `setup_options`; `arch_long_opts` may be a null pointer. -/
def setupOptions (archLongOpts : Option (List (LongOpt Flag))) : List (LongOpt Flag) :=
  defaultLongopts ++ archLongOpts.getD []

/-- The environment has no variables (`SKIP_GETENV`). -/
def commandConfig : Config Flag where
  optstring := shortopts
  longopts := some (setupOptions (some extraOpts))
  longOnly := false
  opterr := true
  posixlyCorrect := false

/-! ### The loop -/

/-- How the loop ends: in `usage()`, at `EOF`, or in a failed assertion or with a null pointer. -/
inductive LoopEnd where
  | usage (p : Settings)
  | parsed (p : Settings) (v : Vars)
  | aborted

/-- A string as the file functions get it. -/
def text (s : Str) : String := String.ofList (s.map fun c => Char.ofNat c.toNat)

/-- `*flag = val` -/
def Settings.store (p : Settings) : Option (Flag × Int) → Settings
  | none => p
  | some (.ismaster, val) => { p with ismaster := val != 0 }

/-- `process_arch_opt(c, arg)` behind its assertion. -/
def Settings.arch (p : Settings) (c : Int) (arg : Str) : Option Settings :=
  if firstArchOpt ≤ c ∧ c ≤ firstArchOpt + 8 then
    some { p with options := processArchOpt p.options (c - firstArchOpt).toNat (strtoul16 arg) }
  else none

/-- The `switch` on what `getopt_long` returns.  The host's name and the port are not used here. -/
def switchOn (p : Settings) (v : Vars) (c : Int) (optarg : Option Str) :
    Progress (Vars × Settings) LoopEnd :=
  if c = 0 then .going (v, p)
  else if c = 0x74 then
    match optarg with
    | some arg => .going (v, { p with traceFn := some (text arg) })
    | none => .done .aborted
  else if c = 0x68 then .going (v, p)
  else if c = 0x70 then
    match optarg with
    | some _ => .going (v, p)
    | none => .done .aborted
  else if c = 0x3f then .done (.usage p)
  else if c < firstArchOpt then .done .aborted
  else
    match optarg with
    | some arg => (p.arch c arg).elim (.done .aborted) fun p => .going (v, p)
    | none => .done .aborted

/-- One turn of the loop of `risu_main`. -/
def round (x : Vars × Settings) : Progress (Vars × Settings) LoopEnd :=
  match getoptInternal commandConfig x.1 with
  | (none, v) => .done (.parsed x.2 v)
  | (some r, v) =>
    let p := x.2.store r.store
    if r.code = -1 then .done (.parsed p v) else switchOn p v r.code r.optarg

/-! ### What the loop makes of an option -/

/-- The option a call returns, if the loop does anything about it. -/
def optOf (r : Ret Flag) : Option Opt :=
  if r.store.isSome then some .master
  else if r.code = 0 then none
  else if r.code = 0x3f then some .help
  else
    match r.optarg with
    | none => none
    | some arg =>
      if r.code = 0x74 then some (.trace (text arg))
      else if r.code = 0x68 then some (.host (text arg))
      else if r.code = 0x70 then some (.port (text arg))
      else if h : r.code.toNat - firstArchOpt < 9 then
        some (.arch ⟨r.code.toNat - firstArchOpt, h⟩ (strtoul16 arg))
      else none

/-- What a call may return: nothing the loop would stop at. -/
inductive Understood : Ret Flag → Prop
  | ignored {r} (hstore : r.store = none) (hcode : r.code = 0) : Understood r
  | master {r} (hstore : r.store = some (.ismaster, 1)) (hcode : r.code = 0) : Understood r
  | help {r} (hstore : r.store = none) (hcode : r.code = 0x3f) : Understood r
  | trace {r arg} (hstore : r.store = none) (harg : r.optarg = some arg) (hcode : r.code = 0x74) :
    Understood r
  | host {r arg} (hstore : r.store = none) (harg : r.optarg = some arg) (hcode : r.code = 0x68) :
    Understood r
  | port {r arg} (hstore : r.store = none) (harg : r.optarg = some arg) (hcode : r.code = 0x70) :
    Understood r
  | arch {r arg} (i : Fin 9) (hstore : r.store = none) (harg : r.optarg = some arg)
      (hcode : r.code = ((firstArchOpt + i.val : ℕ) : Int)) : Understood r

/-- The turn of the loop for an option. -/
def turn (p : Settings) (v : Vars) : Option Opt → Progress (Vars × Settings) LoopEnd
  | none => .going (v, p)
  | some .help => .done (.usage p)
  | some opt => .going (v, p.process opt)

theorem round_eq {r : Ret Flag} {v v' : Vars} {p : Settings}
    (hget : getoptInternal commandConfig v = (some r, v')) (h : Understood r) :
    round (v, p) = turn p v' (optOf r) := by
  unfold round
  rw [hget]
  cases h with
  | ignored hstore hcode =>
    simp [hstore, hcode, Settings.store, switchOn, optOf, turn]
  | master hstore hcode =>
    simp [hstore, hcode, Settings.store, switchOn, optOf, turn, Settings.process]
  | help hstore hcode =>
    simp [hstore, hcode, Settings.store, switchOn, optOf, turn]
  | trace hstore harg hcode =>
    simp [hstore, harg, hcode, Settings.store, switchOn, optOf, turn, Settings.process]
  | host hstore harg hcode =>
    simp [hstore, harg, hcode, Settings.store, switchOn, optOf, turn, Settings.process]
  | port hstore harg hcode =>
    simp [hstore, harg, hcode, Settings.store, switchOn, optOf, turn, Settings.process]
  | arch i hstore harg hcode =>
    fin_cases i <;>
      simp [hstore, harg, hcode, Settings.store, Settings.arch, switchOn, optOf, turn,
        Settings.process, firstArchOpt]

/-! ### What calls return -/

theorem meaning_mem {φ : Type} {name : Str} {opts : List (LongOpt φ)} {index : ℕ} {p : LongOpt φ}
    (h : meaning name opts = .option index p) : p ∈ opts := by
  have hfilter : ∀ {Q : LongOpt φ × ℕ → Bool} {x : LongOpt φ × ℕ},
      x ∈ (opts.zipIdx 0).filter Q → x.1 ∈ opts := by
    intro Q x hx
    have hzip := (List.mem_filter.mp hx).1
    rw [← List.zipIdx_map_fst 0 opts]
    exact List.mem_map_of_mem hzip
  unfold meaning at h
  cases hexacts : exacts name opts 0 with
  | cons x xs =>
    simp only [hexacts, Meaning.option.injEq] at h
    exact h.2 ▸ hfilter (hexacts ▸ List.mem_cons_self .. : x ∈ exacts name opts 0)
  | nil =>
    simp only [hexacts] at h
    cases habbr : abbreviated name opts 0 with
    | nil => simp [habbr] at h
    | cons x xs =>
      cases xs with
      | cons y ys => simp [habbr] at h
      | nil =>
        simp only [habbr, Meaning.option.injEq] at h
        exact h.2 ▸ hfilter (habbr ▸ List.mem_cons_self .. : x ∈ abbreviated name opts 0)

/-- A long option of the table. -/
theorem understood_found {p : LongOpt Flag} (hp : p ∈ setupOptions (some extraOpts)) (index : ℕ)
    {arg : Option Str} (harg : p.hasArg = .required → arg.isSome) :
    Understood (found index p arg) := by
  obtain hp | hp := List.mem_append.mp hp
  · have hsome : p.hasArg = .required → ∃ a, arg = some a :=
      fun h => Option.isSome_iff_exists.mp (harg h)
    simp only [defaultLongopts, List.mem_cons, List.not_mem_nil, or_false] at hp
    obtain rfl | rfl | rfl | rfl | rfl := hp
    · exact .help rfl rfl
    · exact .master rfl rfl
    · obtain ⟨a, rfl⟩ := hsome rfl
      exact .host rfl rfl rfl
    · obtain ⟨a, rfl⟩ := hsome rfl
      exact .port rfl rfl rfl
    · obtain ⟨a, rfl⟩ := hsome rfl
      exact .trace rfl rfl rfl
  · obtain ⟨x, hx, rfl⟩ := List.mem_map.mp hp
    obtain ⟨a, rfl⟩ := Option.isSome_iff_exists.mp (harg rfl)
    have hlt : x.2 < 9 := by
      have hindex := List.snd_lt_of_mem_zipIdx hx
      simpa [extraNames] using hindex
    exact .arch ⟨x.2, hlt⟩ rfl rfl rfl

theorem understood_bad (msg : Str) : Understood (commandConfig.bad msg) := .ignored rfl rfl

theorem noColon : charAt commandConfig.optstring 0 ≠ colon := by decide

theorem understood_long {prog word : Str} {next : Option Str} {s : Str} {x : Ret Flag × Bool}
    (h : readLong commandConfig (setupOptions (some extraOpts)) prog word next s = some x) :
    Understood x.1 := by
  unfold readLong at h
  cases hmeaning : meaning (s.takeWhile fun c => c != equals) (setupOptions (some extraOpts)) with
  | unknown =>
    simp only [hmeaning] at h
    split_ifs at h
    exact (Option.some.inj h).symm ▸ understood_bad _
  | ambiguous =>
    simp only [hmeaning] at h
    exact (Option.some.inj h).symm ▸ understood_bad _
  | option index p =>
    have hp := meaning_mem hmeaning
    simp only [hmeaning, if_neg noColon] at h
    by_cases hvalue : s.dropWhile (fun c => c != equals) ≠ []
    · simp only [if_pos hvalue] at h
      split_ifs at h
      · exact (Option.some.inj h).symm ▸ understood_found hp index (fun _ => rfl)
      · exact (Option.some.inj h).symm ▸ understood_bad _
    · simp only [if_neg hvalue] at h
      by_cases hreq : p.hasArg = .required
      · simp only [if_pos hreq] at h
        cases next with
        | none => exact (Option.some.inj h).symm ▸ understood_bad _
        | some a => exact (Option.some.inj h).symm ▸ understood_found hp index (fun _ => rfl)
      · simp only [if_neg hreq] at h
        exact (Option.some.inj h).symm ▸ understood_found hp index (fun h => absurd h hreq)

/-- The characters of `shortopts`. -/
theorem shortKind_shortopts {c : Byte} {kind : HasArg} (h : shortKind shortopts c = some kind) :
    kind = .required ∧ (c = 0x68 ∨ c = 0x70 ∨ c = 0x74) := by
  by_cases hh : c = 0x68
  · subst hh
    exact ⟨(Option.some.inj h).symm, .inl rfl⟩
  · by_cases hp : c = 0x70
    · subst hp
      exact ⟨(Option.some.inj h).symm, .inr (.inl rfl)⟩
    · by_cases ht : c = 0x74
      · subst ht
        exact ⟨(Option.some.inj h).symm, .inr (.inr rfl)⟩
      · by_cases hcolon : c = 0x3a
        · subst hcolon
          cases h
        · have hnone : myIndex shortopts c = none := by
            simp only [myIndex, shortopts, if_neg (Ne.symm hh), if_neg (Ne.symm hp),
              if_neg (Ne.symm ht), if_neg (Ne.symm hcolon)]
          rw [shortKind, hnone] at h
          cases h

theorem understood_short (prog : Str) (next : Option Str) (c : Byte) (cs : Str) :
    Understood (readShort commandConfig prog next c cs).1 := by
  unfold readShort
  cases hkind : shortKind commandConfig.optstring c with
  | none => exact .ignored rfl rfl
  | some kind =>
    obtain ⟨rfl, hc⟩ := shortKind_shortopts hkind
    have hshort : ∀ arg : Str, Understood (short c (some arg)) := by
      intro arg
      obtain rfl | rfl | rfl := hc
      · exact .host rfl rfl rfl
      · exact .port rfl rfl rfl
      · exact .trace rfl rfl rfl
    by_cases hcs : cs ≠ []
    · simp only [if_pos hcs]
      exact hshort cs
    · simp only [if_neg hcs, if_neg noColon]
      cases next with
      | none => exact .ignored rfl rfl
      | some a => exact hshort a

theorem understood_next (prog word : Str) (next : Option Str) (c : Byte) (cs : Str) :
    Understood (readNext commandConfig prog word next c cs).1 := by
  have hshort := understood_short prog next c cs
  have hlongopts : commandConfig.longopts = some (setupOptions (some extraOpts)) := rfl
  unfold readNext
  simp only [hlongopts]
  by_cases hlong : (charAt word 0 == dash && (charAt word 1 == dash || commandConfig.longOnly)) = true
  · simp only [if_pos hlong]
    cases hread : readLong commandConfig (setupOptions (some extraOpts)) prog word next (c :: cs) with
    | none => exact hshort
    | some x => exact understood_long hread
  · simp only [if_neg hlong]
    exact hshort

/-! ### The whole loop -/

/-- Where the options lead. -/
def loopEnd (p : Settings) (v : Vars) : List (Option Opt) → LoopEnd
  | [] => .parsed p v
  | none :: opts => loopEnd p v opts
  | some .help :: _ => .usage p
  | some opt :: opts => loopEnd (p.process opt) v opts

theorem loopEnd_parse (p : Settings) (v : Vars) (opts : List (Option Opt)) :
    loopEnd p v opts =
      if (parse (opts.filterMap id) p).2 then .usage (parse (opts.filterMap id) p).1
      else .parsed (parse (opts.filterMap id) p).1 v := by
  induction opts generalizing p with
  | nil => rfl
  | cons opt opts ih =>
    cases opt with
    | none => exact ih p
    | some opt =>
      cases opt with
      | help => rfl
      | master => exact ih _
      | trace fn => exact ih _
      | host name => exact ih _
      | port arg => exact ih _
      | arch i val => exact ih _

/-- The loop of `risu_main` beside the loop that keeps what the calls return. -/
theorem round_ends {k : ℕ} {v v' : Vars} {acc rs : List (Ret Flag)}
    (h : Lib.rounds (scanStep commandConfig) k (v, acc) = .done (rs, v')) :
    ∃ rs', rs = acc ++ rs' ∧ ((∀ r ∈ rs', Understood r) →
      ∀ p, EndsAs round (v, p) (loopEnd p v' (rs'.map optOf))) := by
  induction k generalizing v acc with
  | zero => cases h
  | succ k ih =>
    rw [Lib.rounds, scanStep] at h
    cases hget : getoptInternal commandConfig v with
    | mk result w =>
      rw [hget] at h
      cases result with
      | none =>
        cases h
        refine ⟨[], (List.append_nil _).symm, fun _ p => ?_⟩
        have hdone : round (v, p) = .done (.parsed p v') := by
          unfold round
          rw [hget]
        exact (endsAs_done hdone).mpr rfl
      | some r =>
        obtain ⟨rs', hrs, hends⟩ := ih h
        refine ⟨r :: rs', by rw [hrs, List.append_assoc]; rfl, fun hall p => ?_⟩
        have hrest := hends fun r' hr' => hall r' (List.mem_cons_of_mem r hr')
        have hround := round_eq (p := p) hget (hall r (List.mem_cons_self ..))
        rw [List.map_cons]
        cases hopt : optOf r with
        | none =>
          rw [hopt] at hround
          exact (endsAs_going hround).mpr (hrest p)
        | some opt =>
          rw [hopt] at hround
          cases opt with
          | help => exact (endsAs_done hround).mpr rfl
          | master => exact (endsAs_going hround).mpr (hrest _)
          | trace fn => exact (endsAs_going hround).mpr (hrest _)
          | host name => exact (endsAs_going hround).mpr (hrest _)
          | port arg => exact (endsAs_going hround).mpr (hrest _)
          | arch i val => exact (endsAs_going hround).mpr (hrest _)

/-- What a command line says. -/
def reading (prog : Str) (args : List Str) : Reading Flag :=
  readWords commandConfig .permute prog args

/-- The command a list of words stands for.  Without an operand `argv[optind]` lies behind the `argc`
pointers that `eval` allocates; here there is no image then. -/
def commandOf (prog : Str) (args : List Str) (files : Files) : Command where
  opts := (reading prog args).results.filterMap optOf
  imgfile := (reading prog args).operands.head?.map text
  files := files

/-- **The option loop.**  For every list of words, and whatever an earlier command left in the
variables of `getopt.c`, the loop of `risu_main` ends, in no failed assertion, with the settings of the
command the words stand for; `argv[optind]` is then the image the command names. -/
theorem optionLoop_ends (prog : Str) (args : List Str) (hargs : Terminated args) (files : Files)
    (o : Options) :
    ∃ v' : Vars, (v'.argv[v'.optind]?).map text = (commandOf prog args files).imgfile ∧
      ∀ v : Vars, EndsAs round (v.start (prog :: args), ⟨o, false, none⟩)
        (if ((commandOf prog args files).settings o).2 then
          .usage ((commandOf prog args files).settings o).1
        else .parsed ((commandOf prog args files).settings o).1 v') := by
  obtain ⟨v', hreturns, hargv, hoptind⟩ :=
    getopt_ends commandConfig ⟨by decide, by decide⟩ prog args hargs
  refine ⟨v', ?_, fun v => ?_⟩
  · rw [hargv, hoptind, Nat.add_comm, List.getElem?_cons_succ,
      List.getElem?_append_right (Nat.le_refl _), Nat.sub_self, ← List.head?_eq_getElem?]
    rfl
  · obtain ⟨k, hk⟩ := hreturns v
    obtain ⟨rs', hrs, hends⟩ := round_ends hk
    rw [List.nil_append] at hrs
    subst hrs
    have hall := hends (readWords_results (understood_next prog)) ⟨o, false, none⟩
    rw [loopEnd_parse, List.filterMap_map] at hall
    exact hall

theorem optionLoop_ends_trace :
    ∃ v' : Vars, (v'.argv[v'.optind]?).map text = some "img" ∧
      ∀ v : Vars, EndsAs round
        (v.start [chars "risu", chars "img", chars "-t", chars "x", chars "--mas"],
          ⟨.default, false, none⟩)
        (.parsed ⟨.default, true, some "x"⟩ v') :=
  optionLoop_ends (chars "risu") [chars "img", chars "-t", chars "x", chars "--mas"]
    (by unfold Terminated; decide) ⟨fun _ => none, fun _ => false, fun _ => none⟩ .default

/-! ### Where the words stand -/

/-- What a command line says, word by word. -/
theorem reading_append (prog : Str) {xs : List Str} (hxs : Complete commandConfig xs)
    (ys : List Str) :
    reading prog (xs ++ ys) =
      ⟨(reading prog xs).results ++ (reading prog ys).results,
        (reading prog xs).options ++ (reading prog ys).options,
        (reading prog xs).operands ++ (reading prog ys).operands⟩ :=
  readWords_append commandConfig prog hxs ys

theorem reading_nonoption (prog : Str) {w : Str} (hw : isNonoption w = true) (ws : List Str) :
    reading prog (w :: ws) =
      ⟨(reading prog ws).results, (reading prog ws).options, w :: (reading prog ws).operands⟩ := by
  have hdashes : w ≠ dashes := by
    rintro rfl
    exact absurd hw (by decide)
  rw [reading, readWords.eq_def]
  simp only [if_neg hdashes, if_pos hw]
  rfl

/-- **The image can be named anywhere.**  Its name may stand in front of the options, behind them or
between two of them. -/
theorem commandOf_image (prog img : Str) (xs ys : List Str) (files : Files)
    (hxs : Complete commandConfig xs) (himg : isNonoption img = true)
    (hnone : (reading prog xs).operands = []) :
    commandOf prog (xs ++ img :: ys) files = commandOf prog (img :: (xs ++ ys)) files ∧
      (commandOf prog (xs ++ img :: ys) files).imgfile = some (text img) := by
  have hmid : reading prog (xs ++ img :: ys) = _ := reading_append prog hxs (img :: ys)
  have hall : reading prog (xs ++ ys) = _ := reading_append prog hxs ys
  rw [reading_nonoption prog himg ys] at hmid
  unfold commandOf
  rw [reading_nonoption prog himg (xs ++ ys), hall, hmid, hnone]
  exact ⟨rfl, rfl⟩

theorem commandOf_image_between :
    commandOf (chars "risu") [chars "-t", chars "x", chars "img", chars "--master"]
        ⟨fun _ => none, fun _ => false, fun _ => none⟩ =
      commandOf (chars "risu") [chars "img", chars "-t", chars "x", chars "--master"]
        ⟨fun _ => none, fun _ => false, fun _ => none⟩ :=
  (commandOf_image (chars "risu") (chars "img") [chars "-t", chars "x"] [chars "--master"]
    ⟨fun _ => none, fun _ => false, fun _ => none⟩ ⟨by decide, trivial⟩ (by decide) rfl).1

/-- A word of options with a mistake: a long option that is unknown or ambiguous, or short options none
of which is known. -/
def Mistyped (w : Str) : Prop :=
  (∃ s, w = dash :: dash :: s ∧ s ≠ [] ∧
    ∀ index p, meaning (s.takeWhile fun c => c != equals) (setupOptions (some extraOpts)) ≠
      .option index p) ∨
  ∃ c cs, w = dash :: c :: cs ∧ c ≠ 0 ∧ c ≠ dash ∧ ∀ d ∈ c :: cs, shortKind shortopts d = none

theorem readLong_mistyped {prog word : Str} {next : Option Str} {s : Str}
    (h : ∀ index p, meaning (s.takeWhile fun c => c != equals) (setupOptions (some extraOpts)) ≠
      .option index p) :
    ∃ msg, readLong commandConfig (setupOptions (some extraOpts)) prog word next s =
      some (commandConfig.bad msg, false) := by
  have honly : (!commandConfig.longOnly) = true := rfl
  cases hmeaning : meaning (s.takeWhile fun c => c != equals) (setupOptions (some extraOpts)) with
  | unknown =>
    refine ⟨unrecognizedText prog (mark word) s, ?_⟩
    unfold readLong
    simp only [hmeaning, honly, Bool.true_or, if_true]
  | ambiguous =>
    refine ⟨ambiguousText prog word, ?_⟩
    unfold readLong
    simp only [hmeaning]
  | option index p => exact absurd hmeaning (h index p)

theorem readWord_short {prog word : Str} {next : Option Str} (hword : charAt word 1 ≠ dash)
    {cs : Str} (h : ∀ d ∈ cs, shortKind shortopts d = none) :
    (∀ r ∈ (readWord commandConfig prog word next cs).1, optOf r = none) ∧
      (readWord commandConfig prog word next cs).2 = false := by
  induction cs with
  | nil => exact ⟨(fun r hr => nomatch hr), rfl⟩
  | cons c cs ih =>
    obtain ⟨hall, htakes⟩ := ih fun d hd => h d (List.mem_cons_of_mem c hd)
    have hlong : ¬ (charAt word 0 == dash && (charAt word 1 == dash || commandConfig.longOnly)) =
        true := by
      rw [show commandConfig.longOnly = false from rfl, Bool.or_false, Bool.and_eq_true, beq_iff_eq,
        beq_iff_eq]
      exact fun h => hword h.2
    have hkind : shortKind commandConfig.optstring c = none := h c (List.mem_cons_self ..)
    have hnext : readNext commandConfig prog word next c cs =
        ({ commandConfig.bad (illegalText prog c) with optopt := some c }, .more) := by
      have hlongopts : commandConfig.longopts = some (setupOptions (some extraOpts)) := rfl
      unfold readNext readShort
      simp only [hlongopts, if_neg hlong, hkind]
    rw [readWord, hnext]
    refine ⟨fun r hr => ?_, htakes⟩
    obtain rfl | hr := List.mem_cons.mp hr
    · rfl
    · exact hall r hr

/-- What a word with a mistake adds to a command line. -/
theorem reading_mistyped (prog : Str) {w : Str} (hw : Mistyped w) (ws : List Str) :
    ∃ rs, (∀ r ∈ rs, optOf r = none) ∧
      reading prog (w :: ws) =
        ⟨rs ++ (reading prog ws).results, [w] ++ (reading prog ws).options,
          (reading prog ws).operands⟩ := by
  obtain ⟨s, rfl, hs, hmeaning⟩ | ⟨c, cs, rfl, hc, hdash, hall⟩ := hw
  · cases s with
    | nil => exact absurd rfl hs
    | cons c cs =>
      have hdashes : dash :: dash :: c :: cs ≠ dashes := by simp [dashes]
      have hoption : isNonoption (dash :: dash :: c :: cs) = false := rfl
      obtain ⟨msg, hlong⟩ := @readLong_mistyped prog (dash :: dash :: c :: cs) ws.head? (c :: cs)
        hmeaning
      have hword : readWord commandConfig prog (dash :: dash :: c :: cs) ws.head?
          (optionChars commandConfig (dash :: dash :: c :: cs)) =
            ([commandConfig.bad msg], false) := by
        have hchars : optionChars commandConfig (dash :: dash :: c :: cs) = c :: cs := rfl
        have hnext : readNext commandConfig prog (dash :: dash :: c :: cs) ws.head? c cs =
            (commandConfig.bad msg, .done) := by
          have hlongopts : commandConfig.longopts = some (setupOptions (some extraOpts)) := rfl
          have hstarts : (charAt (dash :: dash :: c :: cs) 0 == dash &&
              (charAt (dash :: dash :: c :: cs) 1 == dash || commandConfig.longOnly)) = true := rfl
          unfold readNext
          simp only [hlongopts, hstarts, if_true, hlong]
          rfl
        rw [hchars, readWord, hnext]
      have halone := @readWords_alone _ commandConfig .permute prog _ ws hdashes hoption
        (by rw [hword] : (readWord commandConfig prog (dash :: dash :: c :: cs) ws.head?
          (optionChars commandConfig (dash :: dash :: c :: cs))).2 = false)
      rw [hword] at halone
      refine ⟨[commandConfig.bad msg], fun r hr => ?_, halone⟩
      rw [List.mem_singleton.mp hr]
      rfl
  · have hdashes : dash :: c :: cs ≠ dashes := fun h => hdash (List.cons.inj (List.cons.inj h).2).1
    have hoption : isNonoption (dash :: c :: cs) = false := by
      have hzero : charAt (dash :: c :: cs) 1 ≠ 0 := hc
      rw [isNonoption, charAt_cons, bne_self_eq_false, Bool.false_or, beq_eq_false_iff_ne]
      exact hzero
    have hchars : optionChars commandConfig (dash :: c :: cs) = c :: cs := by
      simp [optionChars, charAt, hdash]
    obtain ⟨hnone, htakes⟩ := @readWord_short prog (dash :: c :: cs) ws.head?
      (show charAt (dash :: c :: cs) 1 ≠ dash from hdash) (c :: cs) hall
    have halone := @readWords_alone _ commandConfig .permute prog _ ws hdashes hoption
      (by rw [hchars]; exact htakes : (readWord commandConfig prog (dash :: c :: cs) ws.head?
        (optionChars commandConfig (dash :: c :: cs))).2 = false)
    rw [hchars] at halone
    exact ⟨_, hnone, halone⟩

/-- **A mistyped option is passed over.**  An option that is not known, or an abbreviation of several,
changes nothing: neither the settings nor the image, and the command is not refused. -/
theorem commandOf_mistyped (prog w : Str) (xs ys : List Str) (files : Files)
    (hxs : Complete commandConfig xs) (hw : Mistyped w) :
    commandOf prog (xs ++ w :: ys) files = commandOf prog (xs ++ ys) files := by
  obtain ⟨rs, hrs, hmistyped⟩ := reading_mistyped prog hw ys
  have hnone : rs.filterMap optOf = [] := List.filterMap_eq_nil_iff.mpr hrs
  unfold commandOf
  rw [reading_append prog hxs (w :: ys), reading_append prog hxs ys, hmistyped]
  simp [List.filterMap_append, hnone]

theorem commandOf_mistyped_unknown :
    commandOf (chars "risu") [chars "--trase", chars "img"]
        ⟨fun _ => none, fun _ => false, fun _ => none⟩ =
      commandOf (chars "risu") [chars "img"] ⟨fun _ => none, fun _ => false, fun _ => none⟩ :=
  commandOf_mistyped (chars "risu") (chars "--trase") [] [chars "img"]
    ⟨fun _ => none, fun _ => false, fun _ => none⟩ trivial
    (.inl ⟨chars "trase", rfl, by decide, fun index p h => by
      have hunknown : meaning ((chars "trase").takeWhile fun c => c != equals)
        (setupOptions (some extraOpts)) = .unknown := rfl
      rw [hunknown] at h
      cases h⟩)

end Risu.Ppc64
