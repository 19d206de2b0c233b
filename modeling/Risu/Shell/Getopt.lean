import Risu.Lib.ByteOrder
import Risu.Lib.Loop
import Risu.Lib.Segments

/-!
# Options of a command line (`compat/getopt.c`)

`getopt_long` returns one option at every call.  Between two calls it keeps its place in `argv` and in
the word it is reading, and it moves the words that are no options behind those that are.

* `Config`, `Vars` — what the calls have in common, and the variables between two calls;
* `Ret` — what a call gives to its caller;
* `Vars.exchange`, `Vars.advance`, `Vars.longOption`, `Vars.shortOption` — the parts of a call;
* `getoptInternal` — a call; `Returns` — all calls up to the one that returns `EOF`.
-/

namespace Risu.Shell.Getopt

open Lib

/-! ### Strings -/

/-- A string, without the zero behind it. -/
abbrev Str := List Byte

/-- `s[i]`, which is the zero at the end of the string. -/
def charAt (s : Str) (i : ℕ) : Byte := s.getD i 0

@[simp] theorem charAt_cons (c : Byte) (s : Str) : charAt (c :: s) 0 = c := rfl

/-- The characters of a text. -/
def chars (s : String) : Str := s.toList.map fun c => BitVec.ofNat 8 c.toNat

def dash : Byte := 0x2d

def plus : Byte := 0x2b

def colon : Byte := 0x3a

def equals : Byte := 0x3d

/-- `my_index`: the end of the string from the first place where the character is. -/
def myIndex : Str → Byte → Option Str
  | [], _ => none
  | c :: s, chr => if c = chr then some (c :: s) else myIndex s chr

/-- `my_strncmp` -/
def myStrncmp : Str → Str → ℕ → Int
  | _, _, 0 => 0
  | s1, s2, n + 1 =>
    if charAt s1 0 ≠ 0 ∧ charAt s1 0 = charAt s2 0 then myStrncmp s1.tail s2.tail n
    else (charAt s1 0).toNat - (charAt s2 0).toNat

/-! ### What the calls are made with -/

/-- `has_arg` -/
inductive HasArg where
  | no
  | required
  | optional
  deriving DecidableEq

/-- `struct option`; `φ` names the variables a flag can point to. -/
structure LongOpt (φ : Type) where
  name : Str
  hasArg : HasArg
  flag : Option φ
  val : Int

/-- What all calls have in common: the arguments other than `argv`, and what is not written to. -/
structure Config (φ : Type) where
  optstring : Str
  longopts : Option (List (LongOpt φ))
  longOnly : Bool
  opterr : Bool
  /-- `getenv("POSIXLY_CORRECT") != NULL` -/
  posixlyCorrect : Bool

/-- The enumeration of `ordering`. -/
inductive ArgOrder where
  | requireOrder
  | permute
  | returnInOrder
  deriving DecidableEq

/-- The variables that outlive a call; `argc` is the length of `argv`. -/
structure Vars where
  argv : List Str
  optind : ℕ
  nextchar : Option Str
  firstNonopt : ℕ
  lastNonopt : ℕ
  ordering : ArgOrder

/-- What a call gives to its caller: the value returned, `optarg`, `*longind`, the flag it sets, what
it prints and `optopt`, each where it sets it. -/
structure Ret (φ : Type) where
  code : Int
  optarg : Option Str
  longind : Option ℕ
  store : Option (φ × Int)
  printed : Str
  optopt : Option Byte

variable {φ : Type}

/-- `BAD_OPTION` -/
def badOption : Int := 0

/-! ### Messages -/

def ambiguousText (prog word : Str) : Str :=
  prog ++ chars ": option `" ++ word ++ chars "' is ambiguous\n"

/-- The second word is the `--`, or the character that introduces the option. -/
def noArgumentText (prog mark name : Str) : Str :=
  prog ++ chars ": option `" ++ mark ++ name ++ chars "' doesn't allow an argument\n"

def requiresText (prog word : Str) : Str :=
  prog ++ chars ": option `" ++ word ++ chars "' requires an argument\n"

def unrecognizedText (prog mark name : Str) : Str :=
  prog ++ chars ": unrecognized option `" ++ mark ++ name ++ chars "'\n"

def illegalText (prog : Str) (c : Byte) : Str := prog ++ chars ": illegal option -- " ++ c :: chars "\n"

def missingText (prog : Str) (c : Byte) : Str :=
  prog ++ chars ": option requires an argument -- " ++ c :: chars "\n"

/-- What introduces the option in a message. -/
def mark (word : Str) : Str :=
  if charAt word 1 = dash then [dash, dash] else [charAt word 0]

/-- A message is printed unless `opterr` is zero. -/
def Config.message (cfg : Config φ) (text : Str) : Str := if cfg.opterr then text else []

/-- A call that returns `BAD_OPTION` with a message, or `:` where the caller asks for it. -/
def Config.bad (cfg : Config φ) (text : Str) : Ret φ where
  code := badOption
  optarg := none
  longind := none
  store := none
  printed := cfg.message text
  optopt := none

/-! ### The parts of a call -/

namespace Vars

/-- `argv[i]` -/
def arg (v : Vars) (i : ℕ) : Str := v.argv.getD i []

def argc (v : Vars) : ℕ := v.argv.length

/-- `argv[0]` -/
def prog (v : Vars) : Str := v.arg 0

/-- `optind++` -/
def skip (v : Vars) : Vars := { v with optind := v.optind + 1 }

/-- `exchange` -/
def exchange (v : Vars) : Vars :=
  { v with
    argv := exchangeSegments v.argv v.firstNonopt v.lastNonopt v.optind
    firstNonopt := v.firstNonopt + (v.optind - v.lastNonopt)
    lastNonopt := v.optind }

end Vars

/-- The word does not start with `-`, or is `-` alone. -/
def isNonoption (word : Str) : Bool := charAt word 0 != dash || charAt word 1 == 0

/-- `--` -/
def dashes : Str := [dash, dash]

namespace Vars

/-- The loop over words that are no options. -/
def skipNonoptions (v : Vars) : Vars :=
  { v with optind := v.optind + ((v.argv.drop v.optind).takeWhile isNonoption).length }

/-- The options read since words were skipped go in front of these. -/
def gather (v : Vars) : Vars :=
  if v.firstNonopt ≠ v.lastNonopt ∧ v.lastNonopt ≠ v.optind then v.exchange
  else if v.lastNonopt ≠ v.optind then { v with firstNonopt := v.optind }
  else v

/-- What is done at the beginning of a word where `ordering` is `PERMUTE`. -/
def permuted (v : Vars) : Vars :=
  let v := v.gather.skipNonoptions
  { v with lastNonopt := v.optind }

/-- The word `--` is passed like an option, and goes with the options. -/
def passDashes (v : Vars) : Vars :=
  if v.skip.firstNonopt ≠ v.skip.lastNonopt ∧ v.skip.lastNonopt ≠ v.skip.optind then v.skip.exchange
  else if v.skip.firstNonopt = v.skip.lastNonopt then { v.skip with firstNonopt := v.skip.optind }
  else v.skip

/-- What is done at the word `--`, if it is the next one: what is behind it is skipped. -/
def endOfOptions (v : Vars) : Vars :=
  if v.optind ≠ v.argc ∧ v.arg v.optind = dashes then
    { v.passDashes with lastNonopt := v.argc, optind := v.argc }
  else v

/-- What comes of the search for the next word with an option in it: `EOF`, a word that is no option,
or the characters that are to be decoded. -/
inductive Advance where
  | eof (v : Vars)
  | nonoption (word : Str) (v : Vars)
  | decode (nextchar : Str) (v : Vars)

/-- The search behind the words that are skipped. -/
def seek (cfg : Config φ) (v : Vars) : Advance :=
  let v := v.endOfOptions
  if v.optind = v.argc then
    .eof (if v.firstNonopt ≠ v.lastNonopt then { v with optind := v.firstNonopt } else v)
  else
    let word := v.arg v.optind
    if isNonoption word then
      if v.ordering = .requireOrder then .eof v else .nonoption word v.skip
    else
      .decode (word.drop (1 + if cfg.longopts.isSome && charAt word 1 == dash then 1 else 0)) v

/-- The call up to the decoding of characters, where the last word is done. -/
def advance (cfg : Config φ) (v : Vars) : Advance :=
  if v.ordering = .permute then v.permuted.seek cfg else v.seek cfg

end Vars

/-- What the loop over the long options finds. -/
structure Search (φ : Type) where
  pfound : Option (ℕ × LongOpt φ)
  exact : Bool
  ambig : Bool

/-- The loop over the long options from `option_index` on, for a name of `n` characters. -/
def search (nextchar : Str) (n : ℕ) :
    List (LongOpt φ) → ℕ → Option (ℕ × LongOpt φ) → Bool → Search φ
  | [], _, pfound, ambig => ⟨pfound, false, ambig⟩
  | p :: ps, index, pfound, ambig =>
    if myStrncmp p.name nextchar n = 0 then
      if n = p.name.length then ⟨some (index, p), true, ambig⟩
      else
        match pfound with
        | none => search nextchar n ps (index + 1) (some (index, p)) ambig
        | some found => search nextchar n ps (index + 1) (some found) true
    else search nextchar n ps (index + 1) pfound ambig

/-- What `nextchar` points to is done. -/
def Vars.finish (v : Vars) : Vars := { v with nextchar := some [] }

/-- The return from a long option that was found. -/
def found (index : ℕ) (p : LongOpt φ) (optarg : Option Str) : Ret φ where
  code := if p.flag.isSome then 0 else p.val
  optarg := optarg
  longind := some index
  store := p.flag.map fun f => (f, p.val)
  printed := []
  optopt := none

/-- The long option at `nextchar`; nothing if it is to be read as a short one. -/
def Vars.longOption (cfg : Config φ) (optstring : Str) (longopts : List (LongOpt φ)) (v : Vars)
    (nextchar : Str) : Option (Ret φ × Vars) :=
  let word := v.arg v.optind
  let n := (nextchar.takeWhile fun c => c != equals).length
  let s := nextchar.drop n
  let r := search nextchar n longopts 0 none false
  if r.ambig && !r.exact then some (cfg.bad (ambiguousText v.prog word), v.skip.finish)
  else
    match r.pfound with
    | some (index, p) =>
      let v := v.skip.finish
      if s ≠ [] then
        if p.hasArg ≠ .no then some (found index p (some s.tail), v)
        else some (cfg.bad (noArgumentText v.prog (mark (v.arg (v.optind - 1))) p.name), v)
      else if p.hasArg = .required then
        if v.optind < v.argc then some (found index p (some (v.arg v.optind)), v.skip)
        else
          some ({ cfg.bad (requiresText v.prog (v.arg (v.optind - 1))) with
            code := if charAt optstring 0 = colon then colon.toNat else badOption }, v)
      else some (found index p none, v)
    | none =>
      if !cfg.longOnly || charAt word 1 == dash ||
          (myIndex optstring (charAt nextchar 0)).isNone then
        some (cfg.bad (unrecognizedText v.prog (mark word) nextchar), v.skip.finish)
      else none

/-- The return from a short option.  The character is taken as an `unsigned char`; where `char` is signed,
one from `0x80` on is returned as a negative number. -/
def short (c : Byte) (optarg : Option Str) : Ret φ where
  code := c.toNat
  optarg := optarg
  longind := none
  store := none
  printed := []
  optopt := none

/-- `nextchar++`; `optind` is at the next word when this was the last character. -/
def Vars.pass (v : Vars) (nextchar : Str) : Vars :=
  { v with
    nextchar := some nextchar
    optind := if nextchar = [] then v.optind + 1 else v.optind }

/-- The short option `c`, with `nextchar` behind it. -/
def Vars.shortOption (cfg : Config φ) (optstring : Str) (v : Vars) (c : Byte) (nextchar : Str) :
    Ret φ × Vars :=
  let v := v.pass nextchar
  let illegal : Ret φ × Vars :=
    ({ cfg.bad (illegalText v.prog c) with optopt := some c }, v)
  match myIndex optstring c with
  | none => illegal
  | some temp =>
    if c = colon then illegal
    else if charAt temp 1 = colon then
      let done := { v with nextchar := none }
      if charAt temp 2 = colon then
        if nextchar ≠ [] then (short c (some nextchar), done.skip) else (short c none, done)
      else if nextchar ≠ [] then (short c (some nextchar), done.skip)
      else if v.optind = v.argc then
        ({ cfg.bad (missingText v.prog c) with
            code := if charAt optstring 0 = colon then colon.toNat else badOption
            optopt := some c }, done)
      else (short c (some (v.arg v.optind)), done.skip)
    else (short c none, v)

/-- The call from where there are characters to decode. -/
def Vars.decode (cfg : Config φ) (optstring : Str) (v : Vars) (nextchar : Str) : Ret φ × Vars :=
  let word := v.arg v.optind
  let long :=
    match cfg.longopts with
    | none => none
    | some longopts =>
      if charAt word 0 == dash && (charAt word 1 == dash || cfg.longOnly) then
        v.longOption cfg optstring longopts nextchar
      else none
  match long with
  | some r => r
  | none => v.shortOption cfg optstring (charAt nextchar 0) nextchar.tail

/-! ### A call -/

/-- The variables as the first call sets them, and the option characters without the sign in front. -/
def Vars.initialized (cfg : Config φ) (v : Vars) : Vars × Str :=
  let v := { v with optind := 1, firstNonopt := 1, lastNonopt := 1, nextchar := none }
  if charAt cfg.optstring 0 = dash then ({ v with ordering := .returnInOrder }, cfg.optstring.tail)
  else if charAt cfg.optstring 0 = plus then
    ({ v with ordering := .requireOrder }, cfg.optstring.tail)
  else if cfg.posixlyCorrect then ({ v with ordering := .requireOrder }, cfg.optstring)
  else ({ v with ordering := .permute }, cfg.optstring)

/-- The call where there are characters of a word left. -/
def Vars.resume (cfg : Config φ) (optstring : Str) (v : Vars) (nextchar : Str) :
    Option (Ret φ) × Vars :=
  let r := v.decode cfg optstring nextchar
  (some r.1, r.2)

/-- What the search gives to the caller; no result is `EOF`. -/
def Vars.Advance.outcome (cfg : Config φ) (optstring : Str) : Vars.Advance → Option (Ret φ) × Vars
  | .eof v => (none, v)
  | .nonoption word v => (some { cfg.bad [] with code := 1, optarg := some word }, v)
  | .decode nextchar v => v.resume cfg optstring nextchar

/-- The call where the last word is done. -/
def Vars.fresh (cfg : Config φ) (optstring : Str) (v : Vars) : Option (Ret φ) × Vars :=
  (v.advance cfg).outcome cfg optstring

/-- The characters of the word that are left. -/
def Vars.ahead (v : Vars) : Str := v.nextchar.getD []

/-- The call behind the initialization. -/
def Vars.call (cfg : Config φ) (optstring : Str) (v : Vars) : Option (Ret φ) × Vars :=
  if v.ahead = [] then v.fresh cfg optstring else v.resume cfg optstring v.ahead

/-- `_getopt_internal` -/
def getoptInternal (cfg : Config φ) (v : Vars) : Option (Ret φ) × Vars :=
  if v.optind = 0 then
    let init := v.initialized cfg
    init.1.call cfg init.2
  else v.call cfg cfg.optstring

/-- One call of the caller's loop, which keeps what it gets. -/
def scanStep (cfg : Config φ) (x : Vars × List (Ret φ)) :
    Progress (Vars × List (Ret φ)) (List (Ret φ) × Vars) :=
  match getoptInternal cfg x.1 with
  | (none, v) => .done (x.2, v)
  | (some r, v) => .going (v, x.2 ++ [r])

/-- The variables before the first call. -/
def Vars.start (argv : List Str) (v : Vars) : Vars := { v with argv := argv, optind := 0 }

/-- What the calls give on a command line, whatever the variables were, and how they leave them. -/
def Returns (cfg : Config φ) (argv : List Str) (rs : List (Ret φ)) (v' : Vars) : Prop :=
  ∀ v : Vars, EndsAs (scanStep cfg) (v.start argv, []) (rs, v')

end Risu.Shell.Getopt
