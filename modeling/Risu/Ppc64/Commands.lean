import Risu.Leftover
import Risu.Accept
import Risu.Ppc64.Port

/-!
# Commands in a MacOS 9 session (`risu_main.c`, `risu_main`)

Under MacOS 9 the program is started once: `eval` calls `risu_main` for every line that starts with
`risu`, in the same process, so that every command but the first finds the file-scope variables of
`risu.c` and the options of `risu_reginfo_ppc64.c` as the command before it left them.  Trace files
are the only means of communication in this build.

* `mac9` — the build, under the options in force and with an image loaded;
* `Command`, `Opt`, `parse` — a command line as `getopt_long` returns it, and the option loop;
* `Globals`, `risuMain` — the variables that outlive a command, and one command;
* `Reached` — the variables after a sequence of commands;
* `commands_isolated` — when a command does what it does in a fresh process.
-/

namespace Risu.Ppc64

open Lib Lib.Process

/-! ### Images -/

/-- The image stops with a signal. -/
structure Trap where
  sig : Signal
  uc : Ucontext 32
  mem : BitVec 32 → ℕ → Byte

/-- An image file, as `load_image` loads it and as it then runs. -/
structure ImageFile where
  startAddress : BitVec 32
  imageSize : ℕ
  next : List (Ucontext 32) → Option Trap

/-- The MacOS 9 program: a native big-endian build with 32-bit pointers. -/
def mac9 (o : Options) (img : ImageFile) : Build where
  ptrBytes := 4
  order := .big
  dppc := false
  endianswap := ulong32
  startAddress := img.startAddress
  imageSize := img.imageSize
  findRange := fun _ => false
  options := o
  ptrBytes_eq := four_ptrBytes
  endianswap_eq := endianswap_eq_of_native ulong32

/-- The signal as a handler gets it.  In a build that does not swap headers nothing behind
`ri[MASTER]` is read. -/
def Trap.event (trap : Trap) (o : Options) (img : ImageFile) : Event (port (mac9 o img)) where
  sig := trap.sig
  uc := trap.uc
  mem := trap.mem
  behindRi := fun _ => 0

/-- The image under the options in force. -/
def ImageFile.under (img : ImageFile) (o : Options) : Image (port (mac9 o img)) :=
  fun ctxs => (img.next ctxs).map fun trap => trap.event o img

/-- The op the image asks for at a stop. -/
def ImageFile.asks (img : ImageFile) : List (Ucontext 32) → Option RisuOp :=
  (img.under .default).asks

theorem reginfoInit_options (o o' : Options) (img : ImageFile) (uc : Ucontext 32) :
    (mac9 o img).reginfoInit uc = (mac9 o' img).reginfoInit uc := rfl

/-- What an image asks for does not depend on the options. -/
theorem ImageFile.under_asks (img : ImageFile) (o : Options) : (img.under o).asks = img.asks := by
  funext ctxs
  show ((img.next ctxs).map _).bind _ = ((img.next ctxs).map _).bind _
  cases img.next ctxs with
  | none => rfl
  | some trap =>
    exact congrArg (fun r : Reginfo 32 0 => RisuOp.ofCode (getRisuop r))
      (reginfoInit_options o .default img trap.uc)

/-! ### Command lines -/

/-- What `getopt_long` returns. -/
inductive Opt where
  /-- `--help`.  An option it does not know is none of these: `getopt.c` returns `BAD_OPTION`, which is 0,
  and the loop goes on. -/
  | help
  | master
  | trace (fn : String)
  | host (name : String)
  | port (arg : String)
  /-- The options of `extra_opts`, with the value of the argument. -/
  | arch (opt : Fin 9) (val : BitVec 32)

/-- What a command finds in the file system. -/
structure Files where
  /-- The contents of a trace file that can be opened for reading. -/
  trace : String → Option (List Byte)
  /-- The trace file can be created or truncated. -/
  creates : String → Bool
  /-- An image that can be loaded. -/
  image : String → Option ImageFile

structure Command where
  opts : List Opt
  /-- `argv[optind]` -/
  imgfile : Option String
  files : Files

/-- The image a command names. -/
def Command.image (c : Command) : Option ImageFile := c.imgfile.bind c.files.image

/-- The variables the option loop sets. -/
structure Settings where
  options : Options
  ismaster : Bool
  traceFn : Option String

/-- One round of the option loop. -/
def Settings.process (p : Settings) : Opt → Settings
  | .help | .host _ | .port _ => p
  | .master => { p with ismaster := true }
  | .trace fn => { p with traceFn := some fn }
  | .arch opt val => { p with options := processArchOpt p.options opt val }

/-- The option loop; `true` if it ends in `usage()`. -/
def parse : List Opt → Settings → Settings × Bool
  | [], p => (p, false)
  | .help :: _, p => (p, true)
  | opt :: opts, p => parse opts (p.process opt)

/-- The option loop as `risu_main` enters it. -/
def Command.settings (c : Command) (o : Options) : Settings × Bool := parse c.opts ⟨o, false, none⟩

/-- The options in force after a sequence of command lines that starts with the defaults. -/
def optionsAfter (cs : List Command) : Options :=
  cs.foldl (fun o c => (c.settings o).1.options) .default

/-! ### One command -/

section carry

variable {o o' : Options} {img img' : ImageFile}

/-- The variables of `risu.c` do not depend on the options and the image. -/
def carry (s : State (port (mac9 o img))) : State (port (mac9 o' img')) where
  riMaster := s.riMaster
  riApprentice := s.riApprentice
  otherMemblock := s.otherMemblock
  header := ⟨s.header.magic, s.header.size, s.header.risuOp, s.header.pc⟩
  memblock := s.memblock
  archMemblock := s.archMemblock
  signalCount := s.signalCount
  illegalInstructions := s.illegalInstructions
  signalPc := s.signalPc
  isSetup := s.isSetup
  completed := s.completed
  contexts := s.contexts

end carry

/-- No image is loaded between commands. -/
def unloaded : ImageFile := ⟨0, 0, fun _ => none⟩

/-- What outlives a command. -/
structure Globals where
  options : Options
  vars : State (port (mac9 .default unloaded))

/-- A fresh process. -/
def Globals.start : Globals := ⟨.default, State.start _⟩

/-- `risu_main` clears the counters and `is_setup`; the ghost fields are those of a new run. -/
def Globals.enter (g : Globals) : State (port (mac9 .default unloaded)) :=
  { g.vars with
    signalCount := 0
    illegalInstructions := 0
    isSetup := false
    completed := []
    contexts := [] }

/-- What a command comes to.  Where an image was run, with the bytes written to the trace file. -/
inductive CommandEnd where
  /-- `usage()`, and `risu_main` returns `EXIT_FAILURE` -/
  | usage
  /-- `exit(EXIT_FAILURE)` -/
  | exited
  | running (written : List Byte)
  | died (d : Death) (written : List Byte)
  /-- `master()` or `apprentice()` returns, with what `print_loc` and `print_stats` print. -/
  | left (leave : Leave) (loc : Option (BitVec 32)) (signalCount illegalInstructions : ℕ)
    (written : List Byte)

/-- The location is printed when the image was left by a jump. -/
def printedLoc {A : Arch} (leave : Leave) (s : State A) : Option A.Ptr :=
  match leave with
  | .jump _ => some s.signalPc
  | .returned => none

/-- What the run of an image comes to. -/
def commandEnd {o : Options} {img : ImageFile}
    (r : FileRun (State (port (mac9 o img))) Death (Option Leave × State (port (mac9 o img)))) :
    CommandEnd :=
  match r.last with
  | .ret (some leave, s) =>
    .left leave (printedLoc leave s) s.signalCount s.illegalInstructions r.out
  | .halt _ d => .died d r.out
  | _ => .running r.out

/-- The variables after the run of an image, if `risu_main` returns. -/
def globalsAfter {o : Options} {img : ImageFile}
    (r : FileRun (State (port (mac9 o img))) Death (Option Leave × State (port (mac9 o img)))) :
    Option Globals :=
  match r.last with
  | .ret (some _, s) => some ⟨o, carry s⟩
  | _ => none

/-- `master()` or `apprentice()` on a trace file, for at most the given number of signals. -/
def runImage (fuel : ℕ) (p : Settings) (img : ImageFile) (input : List Byte)
    (s : State (port (mac9 .default unloaded))) :
    FileRun (State (port (mac9 p.options img))) Death
      (Option Leave × State (port (mac9 p.options img))) :=
  let handler := if p.ismaster then masterSigill true else apprenticeSigill true
  fileRun (imageRun handler (img.under p.options) fuel (carry s)) input

/-- The trace file is opened, for writing by the master. -/
def openTrace (p : Settings) (files : Files) (fn : String) : Option (List Byte) :=
  if p.ismaster then if files.creates fn then some [] else none
  else files.trace fn

/-- `risu_main` in this build: what the command comes to and, if it returns, the variables it leaves
behind. -/
def risuMain (fuel : ℕ) (g : Globals) (c : Command) : CommandEnd × Option Globals :=
  match c.settings g.options with
  | (p, true) => (.usage, some ⟨p.options, g.enter⟩)
  | (p, false) =>
    match p.traceFn with
    | none => (.exited, none)
    | some fn =>
      if fn = "-" then (.exited, none)
      else
        match openTrace p c.files fn with
        | none => (.exited, none)
        | some input =>
          match c.imgfile with
          | none => (.usage, some ⟨p.options, g.enter⟩)
          | some name =>
            match c.files.image name with
            | none => (.exited, none)
            | some img =>
              let r := runImage fuel p img input g.enter
              (commandEnd r, globalsAfter r)

/-- The variables after a sequence of commands, all of which returned. -/
inductive Reached : List Command → Globals → Prop
  | start : Reached [] .start
  | next {cs g c g'} (fuel : ℕ) : Reached cs g → (risuMain fuel g c).2 = some g' →
    Reached (cs ++ [c]) g'

/-! ### Options -/

/-- The option loop sets the options, whatever they were, and everything else alike. -/
theorem parse_options (opts : List Opt) (p : Settings) (o : Options) :
    parse opts { p with options := o } =
      ({ (parse opts p).1 with options := (parse opts { p with options := o }).1.options },
        (parse opts p).2) := by
  induction opts generalizing p o with
  | nil => rfl
  | cons opt opts ih =>
    cases opt with
    | help => rfl
    | master => exact ih { p with ismaster := true } o
    | trace fn => exact ih { p with traceFn := some fn } o
    | host name => exact ih p o
    | port arg => exact ih p o
    | arch opt val =>
      exact ih { p with options := processArchOpt p.options opt val } (processArchOpt o opt val)

theorem Command.settings_eq {c : Command} {o o' : Options}
    (h : (c.settings o).1.options = (c.settings o').1.options) : c.settings o = c.settings o' := by
  have hparse := parse_options c.opts ⟨o', false, none⟩ o
  unfold Command.settings at h ⊢
  rw [hparse, h]

/-! ### One command at a time -/

/-- A command that gets as far as its image. -/
theorem risuMain_run {fuel : ℕ} {g : Globals} {c : Command} {p : Settings} {fn : String}
    {input : List Byte} {img : ImageFile} (hset : c.settings g.options = (p, false))
    (hfn : p.traceFn = some fn) (hdash : fn ≠ "-") (hopen : openTrace p c.files fn = some input)
    {name : String} (hname : c.imgfile = some name) (himg : c.files.image name = some img) :
    risuMain fuel g c = (commandEnd (runImage fuel p img input g.enter),
      globalsAfter (runImage fuel p img input g.enter)) := by
  rw [risuMain]
  simp only [hset, hfn, if_neg hdash, hopen, hname, himg]

/-- **What a command can do.**  The command line, the options it ends with and the files decide
whether it stops in `usage()`, exits, or runs an image; the variables are passed to the image. -/
theorem risuMain_cases (c : Command) (p : Settings) (usage : Bool) :
    (∀ fuel g, c.settings g.options = (p, usage) →
      risuMain fuel g c = (.usage, some ⟨p.options, g.enter⟩)) ∨
    (∀ fuel g, c.settings g.options = (p, usage) → risuMain fuel g c = (.exited, none)) ∨
    ∃ img input, c.image = some img ∧ ∀ fuel g, c.settings g.options = (p, usage) →
      risuMain fuel g c = (commandEnd (runImage fuel p img input g.enter),
        globalsAfter (runImage fuel p img input g.enter)) := by
  cases usage with
  | true =>
    refine .inl fun fuel g hset => ?_
    simp only [risuMain, hset]
  | false =>
    cases hfn : p.traceFn with
    | none =>
      refine .inr (.inl fun fuel g hset => ?_)
      simp only [risuMain, hset, hfn]
    | some fn =>
      by_cases hdash : fn = "-"
      · refine .inr (.inl fun fuel g hset => ?_)
        simp only [risuMain, hset, hfn, if_pos hdash]
      · cases hopen : openTrace p c.files fn with
        | none =>
          refine .inr (.inl fun fuel g hset => ?_)
          simp only [risuMain, hset, hfn, if_neg hdash, hopen]
        | some input =>
          cases hname : c.imgfile with
          | none =>
            refine .inl fun fuel g hset => ?_
            simp only [risuMain, hset, hfn, if_neg hdash, hopen, hname]
          | some name =>
            cases himg : c.files.image name with
            | none =>
              refine .inr (.inl fun fuel g hset => ?_)
              simp only [risuMain, hset, hfn, if_neg hdash, hopen, hname, himg]
            | some img =>
              refine .inr (.inr ⟨img, input, ?_, fun fuel g hset => ?_⟩)
              · rw [Command.image, hname]
                exact himg
              · exact risuMain_run hset hfn hdash hopen hname himg

/-- What a command that returns leaves behind. -/
theorem risuMain_returns {fuel : ℕ} {g g' : Globals} {c : Command}
    (h : (risuMain fuel g c).2 = some g') :
    g'.options = (c.settings g.options).1.options ∧
      (g'.vars = g.enter ∨ ∃ p img input, c.image = some img ∧
        globalsAfter (runImage fuel p img input g.enter) = some g') := by
  cases hset : c.settings g.options with
  | mk p usage =>
    obtain husage | hexited | ⟨img, input, himage, hrun⟩ := risuMain_cases c p usage
    · rw [husage fuel g hset] at h
      cases h
      exact ⟨rfl, .inl rfl⟩
    · rw [hexited fuel g hset] at h
      cases h
    · rw [hrun fuel g hset] at h
      refine ⟨?_, .inr ⟨p, img, input, himage, h⟩⟩
      rw [globalsAfter] at h
      split at h
      · cases h
        rfl
      · cases h

theorem Reached.options {cs : List Command} {g : Globals} (hg : Reached cs g) :
    g.options = optionsAfter cs := by
  induction hg with
  | start => rfl
  | next fuel hg hmain ih =>
    rw [(risuMain_returns hmain).1, ih, optionsAfter, optionsAfter, List.foldl_append]
    rfl

/-! ### Variables -/

theorem stepAlike (p : Settings) (img : ImageFile) :
    StepAlike (A := port (mac9 p.options img))
      (if p.ismaster then masterSigill true else apprenticeSigill true) := by
  intro ctxs m m' s t e h huses
  split_ifs
  · exact masterSigill_alike h huses
  · exact apprenticeSigill_alike h huses

/-- Two runs of an image over the same trace file, from what two commands left behind. -/
theorem runImage_alike (fuel : ℕ) (p : Settings) (img : ImageFile) (input : List Byte)
    (g g₀ : Globals) (hcov : g.vars.block = g₀.vars.block ∨ SetsBlockFirst img.asks) :
    (runImage fuel p img input g.enter).out = (runImage fuel p img input g₀.enter).out ∧
      Leaves (Ended (A := port (mac9 p.options img)) img.asks g.vars.block)
        (runImage fuel p img input g.enter).last (runImage fuel p img input g₀.enter).last := by
  have halike : Alike (A := port (mac9 p.options img)) [] g.vars.block g₀.vars.block
      (carry g.enter) (carry g₀.enter) := ⟨rfl, rfl, rfl, rfl⟩
  have hcovered : Covered (A := port (mac9 p.options img)) img.asks [] g.vars.block
      g₀.vars.block := by
    obtain heq | hfirst := hcov
    · exact .inl heq
    · exact .inr ⟨hfirst, fun k hk => absurd hk (Nat.not_lt_zero k)⟩
  have hrun := imageRun_alike (stepAlike p img) (img.under p.options) fuel halike
    (by rw [img.under_asks]; exact hcovered)
  rw [img.under_asks] at hrun
  obtain ⟨hout, -, hlast⟩ := hrun.fileRun input
  exact ⟨hout, hlast⟩

/-- Runs that end alike come to the same. -/
theorem commandEnd_alike {o : Options} {img : ImageFile} {asks : List (Ucontext 32) → Option RisuOp}
    {m : Option (BitVec 32) × BitVec 32}
    {r r' : FileRun (State (port (mac9 o img))) Death (Option Leave × State (port (mac9 o img)))}
    (hout : r.out = r'.out)
    (hlast : Leaves (Ended (A := port (mac9 o img)) asks m) r.last r'.last) :
    commandEnd r = commandEnd r' := by
  unfold commandEnd
  rw [hout]
  obtain ⟨⟨leave, s⟩, ⟨leave', t⟩, hr, hr', hended⟩ | ⟨s, t, d, hr, hr'⟩ := hlast
  · have hleave : leave' = leave := hended.leave
    have hcount : t.signalCount = s.signalCount := hended.signalCount
    have hillegal : t.illegalInstructions = s.illegalInstructions := hended.illegalInstructions
    subst hleave
    rw [hr, hr']
    cases leave' with
    | none => rfl
    | some leave =>
      have hloc : printedLoc leave t = printedLoc leave s := by
        cases leave with
        | jump res => exact congrArg some (hended.signalPc res rfl)
        | returned => rfl
      simp only [hloc, hcount, hillegal]
  · rw [hr, hr']

/-- A command whose image does not set the memory block leaves it as it was. -/
theorem risuMain_block {fuel : ℕ} {g g' : Globals} {c : Command}
    (h : (risuMain fuel g c).2 = some g')
    (hnever : ∀ img, c.image = some img → NeverSetsBlock img.asks) :
    g'.vars.block = g.vars.block := by
  obtain ⟨-, hvars | ⟨p, img, input, himage, hafter⟩⟩ := risuMain_returns h
  · rw [hvars]
    rfl
  · have hlast := (runImage_alike fuel p img input g g (.inl rfl)).2
    rw [globalsAfter] at hafter
    split at hafter
    · rename_i leave s hret
      rw [hret] at hlast
      cases hafter
      obtain ⟨a, b, ha, -, hended⟩ | ⟨_, _, _, hhalt, -⟩ := hlast
      · cases ha
        exact hended.block (hnever img himage)
      · cases hhalt
    · cases hafter

theorem Reached.block {cs : List Command} {g : Globals} (hg : Reached cs g)
    (hnever : ∀ c ∈ cs, ∀ img, c.image = some img → NeverSetsBlock img.asks) :
    g.vars.block = Globals.start.vars.block := by
  induction hg with
  | start => rfl
  | @next cs g c g' fuel hg hmain ih =>
    rw [risuMain_block hmain (hnever c (by simp))]
    exact ih fun c' hc' => hnever c' (by simp [hc'])

/-! ### A session with a mask -/

/-- The image stops once, at `OP_COMPARE` with the given value in `r3`, and then returns. -/
def comparesOnce (r3 : BitVec 32) : ImageFile where
  startAddress := 0x1000
  imageSize := 0x1000
  next := fun ctxs =>
    match ctxs with
    | [] => some
      { sig := .sigill
        uc :=
          { gregs := fun j => if j = risuNip then 0x1000 else if j.val = 3 then r3 else 0
            fpregs := fun _ => 0
            fpscr := 0
            word := fun _ => 0x5af0 }
        mem := fun _ _ => 0 }
    | _ :: _ => none

/-- The registers of a master whose `r3` is 0. -/
def zeroReginfo : Reginfo 32 0 where
  secondPrevInsn := 0
  prevInsn := 0
  faultingInsn := 0x5af0
  nextInsn := 0x5af0
  nip := 0
  gregs := fun j => if j = risuNip then 0x1000 else 0
  fpregs := fun _ => 0
  fpscr := 0
  vrregs := Fin.elim0

def zeroRecord (o : Options) : Record (port (mac9 o (comparesOnce 1))) where
  op := .compare
  pc := 0
  payload := .regs zeroReginfo

/-- The header of the record as it lies in a trace file. -/
def zeroHeader : List Byte :=
  [bytesOf .big 4 0x52495355, bytesOf .big 4 444, bytesOf .big 4 0, [], bytesOf .big 4 0].flatten

theorem zeroRecord_header (o : Options) : (zeroRecord o).header.bytes = zeroHeader := by
  have hsize : (zeroRecord o).header.size.toNat = 444 := by
    rw [Record.header_size]
    exact (mac9 o (comparesOnce 1)).sizeofReginfo_eq
  rw [Header.bytes, Header.fields]
  rw [hsize]
  rfl

theorem reginfoBytes_options (o o' : Options) (img : ImageFile) (r : Reginfo 32 0) :
    (mac9 o img).reginfoBytes r = (mac9 o' img).reginfoBytes r := rfl

def zeroBytes : List Byte := zeroHeader ++ (mac9 .default (comparesOnce 1)).reginfoBytes zeroReginfo

theorem zeroRecord_bytes (o : Options) : (zeroRecord o).bytes = zeroBytes := by
  have hpayload : (zeroRecord o).payload.bytes =
      (mac9 .default (comparesOnce 1)).reginfoBytes zeroReginfo :=
    reginfoBytes_options o .default _ _
  rw [Record.bytes, zeroRecord_header, hpayload]
  rfl

def maskFiles : Files where
  trace := fun _ => some zeroBytes
  creates := fun _ => false
  image := fun name => if name = "returns" then some unloaded else some (comparesOnce 1)

/-- `risu --gregs_mask=0 -t trace returns` -/
def maskCommand : Command := ⟨[.arch 5 0, .trace "trace"], some "returns", maskFiles⟩

/-- `risu -t trace compares` -/
def compareCommand : Command := ⟨[.trace "trace"], some "compares", maskFiles⟩

/-- What the first command leaves behind. -/
def maskGlobals : Globals := ⟨{ Options.default with gregsMask := 0 }, Globals.start.enter⟩

theorem maskGlobals_reached : Reached [maskCommand] maskGlobals :=
  .next 1 .start rfl

/-- The apprentice's first event, with a record in the trace file. -/
theorem fileRun_imageRun {A : Arch} (img : Image A) (n : ℕ) {s : State A} {e : Event A}
    (himg : img s.contexts = some e) (hsig : e.sig = .sigill) (hskip : ¬ e.Skipped s.isSetup)
    {r : Record A} (hr : r.Sound) (hm : r.payload.isMissing = false)
    {v : RisuResult × A.Ucontext × State A}
    (hverdict : verdict e (storeRecord (s.enterApprentice e) r) = .ok v) :
    (fileRun (imageRun (apprenticeSigill true) img (n + 1) s) r.bytes).last =
      (fileRun (if v.1 = .ok then imageRun (apprenticeSigill true) img n (resume e v).2
        else .ret (some (.jump v.1), (resume e v).2)) []).last := by
  have hskip' : ¬ e.Skipped (s.enterApprentice e).isSetup := by
    rw [State.enterApprentice, countSigill_isSetup]
    exact hskip
  have hstep : apprenticeSigill true s e = recvRegisterInfo true (s.enterApprentice e) >>=
      fun r => judgeRecord true e r >>= fun v => .ret (resume e v) := by
    rw [apprenticeSigill]
    simp only [hsig]
    show (if e.Skipped (s.enterApprentice e).isSetup then _ else _) >>= _ = _
    rw [if_neg hskip']
    exact bind_assoc _ _ _
  have hrun : imageRun (apprenticeSigill true) img (n + 1) s =
      recvRegisterInfo true (s.enterApprentice e) >>= fun r => judgeRecord true e r >>= fun v =>
        if v.1 = .ok then imageRun (apprenticeSigill true) img n (resume e v).2
        else .ret (some (.jump v.1), (resume e v).2) := by
    rw [imageRun, himg]
    simp only [hstep, bind_assoc, pure_eq, ret_bind, resume_fst]
  have hreceived := fileRun_received true (s.enterApprentice e) hr hm
    (fun r => judgeRecord true e r >>= fun v =>
      if v.1 = .ok then imageRun (apprenticeSigill true) img n (resume e v).2
      else .ret (some (.jump v.1), (resume e v).2)) []
  rw [List.append_nil] at hreceived
  rw [hrun]
  refine hreceived.trans ?_
  rw [judgeRecord_ok, hverdict]
  rfl

/-- How the image was left, if it was. -/
def CommandEnd.leave : CommandEnd → Option Leave
  | .left leave _ _ _ _ => some leave
  | _ => none

/-- The comparing command, for what the comparison says. -/
theorem compareCommand_leave (g : Globals) {e : Event (port (mac9 g.options (comparesOnce 1)))}
    {v : RisuResult × Ucontext 32 × State (port (mac9 g.options (comparesOnce 1)))}
    (himg : ((comparesOnce 1).under g.options) [] = some e)
    (hverdict : verdict e
      (storeRecord (State.enterApprentice (carry g.enter) e) (zeroRecord g.options)) = .ok v)
    (hctxs : v.2.2.contexts = []) :
    (risuMain 2 g compareCommand).1.leave = some (if v.1 = .ok then .returned else .jump v.1) := by
  have hmain : risuMain 2 g compareCommand = (commandEnd (runImage 2
      ⟨g.options, false, some "trace"⟩ (comparesOnce 1) zeroBytes g.enter), _) :=
    risuMain_run rfl rfl (by decide) rfl rfl rfl
  have hlast := fileRun_imageRun (A := port (mac9 g.options (comparesOnce 1)))
    ((comparesOnce 1).under g.options) 1 (s := carry g.enter) himg
    (by cases himg; rfl) (by intro hskip; cases hskip.2)
    (r := zeroRecord g.options) rfl rfl hverdict
  rw [zeroRecord_bytes] at hlast
  have hrun : (runImage 2 ⟨g.options, false, some "trace"⟩ (comparesOnce 1) zeroBytes g.enter).last =
    _ := hlast
  rw [hmain]
  rw [commandEnd]
  rw [hrun]
  by_cases hok : v.1 = .ok
  · have hreturn : imageRun (apprenticeSigill true) ((comparesOnce 1).under g.options) 1
        (resume e v).2 = .ret (some .returned, (resume e v).2) := by
      unfold imageRun Risu.resume
      rw [if_pos hok, hctxs]
      rfl
    rw [if_pos hok, if_pos hok, hreturn]
    rfl
  · rw [if_neg hok, if_neg hok]
    rfl

/-- `risu --gregs_mask=bffbffff -t trace compares` -/
def remaskCommand : Command :=
  ⟨[.arch 5 0xbffbffff, .trace "trace"], some "compares", maskFiles⟩

/-! ### Isolation -/

/-- **Commands are isolated when they set up what they use.**  After any sequence of commands, a
command comes to what it comes to in a fresh process, provided that its options end as they would
there, and that its image sets the memory block before it uses it, or no earlier image set one. -/
theorem commands_isolated {cs : List Command} {g : Globals} (hg : Reached cs g) (c : Command)
    (hopts : optionsAfter (cs ++ [c]) = optionsAfter [c])
    (hblock : (∀ img, c.image = some img → SetsBlockFirst img.asks) ∨
      ∀ c' ∈ cs, ∀ img, c'.image = some img → NeverSetsBlock img.asks) (fuel : ℕ) :
    (risuMain fuel g c).1 = (risuMain fuel .start c).1 := by
  have hset : c.settings g.options = c.settings Globals.start.options := by
    refine Command.settings_eq ?_
    rw [hg.options]
    rw [optionsAfter, List.foldl_append] at hopts
    exact hopts
  have hrun : ∀ p img input, c.image = some img →
      commandEnd (runImage fuel p img input g.enter) =
        commandEnd (runImage fuel p img input Globals.start.enter) := by
    intro p img input himage
    have hcov : g.vars.block = Globals.start.vars.block ∨ SetsBlockFirst img.asks := by
      obtain hfirst | hnever := hblock
      · exact .inr (hfirst img himage)
      · exact .inl (hg.block hnever)
    obtain ⟨hout, hlast⟩ := runImage_alike fuel p img input g .start hcov
    exact commandEnd_alike hout hlast
  cases hstart : c.settings Globals.start.options with
  | mk p usage =>
    rw [hstart] at hset
    obtain husage | hexited | ⟨img, input, himage, hmain⟩ := risuMain_cases c p usage
    · rw [husage fuel g hset, husage fuel .start hstart]
    · rw [hexited fuel g hset, hexited fuel .start hstart]
    · rw [hmain fuel g hset, hmain fuel .start hstart]
      exact hrun p img input himage

/-- A command that gives the mask again is not affected. -/
theorem commands_isolated_remask :
    (risuMain 2 maskGlobals remaskCommand).1 = (risuMain 2 .start remaskCommand).1 := by
  refine commands_isolated maskGlobals_reached remaskCommand rfl (.inr ?_) 2
  intro c hc img himage ctxs
  cases List.mem_singleton.mp hc
  cases himage
  intro hasks
  cases hasks

/-- In a fresh process the difference in `r3` is found; after a command with `--gregs_mask=0` the same
command compares no register. -/
theorem commands_share_mask :
    Reached [maskCommand] maskGlobals ∧
    (risuMain 2 .start compareCommand).1.leave = some (.jump .mismatchReg) ∧
    (risuMain 2 maskGlobals compareCommand).1.leave = some .returned ∧
    (risuMain 2 maskGlobals compareCommand).1 ≠ (risuMain 2 .start compareCommand).1 := by
  have hfresh : (risuMain 2 .start compareCommand).1.leave = some (.jump .mismatchReg) :=
    compareCommand_leave .start rfl rfl rfl
  have hmasked : (risuMain 2 maskGlobals compareCommand).1.leave = some .returned :=
    compareCommand_leave maskGlobals rfl rfl rfl
  refine ⟨maskGlobals_reached, hfresh, hmasked, ?_⟩
  intro heq
  rw [heq, hfresh] at hmasked
  cases hmasked

end Risu.Ppc64
