import Risu.Shell.Argcargv

/-!
# The command loop (`eval`)

`argcargv` is called on the pointer that it returned, as long as there is a byte.

* `Evals` — the lines of a buffer, one after the other, and of the files that they name;
* `scanLines` — the lines of a text that nothing changes;
* `called_iff`, `evals_iff` — one line, and all of them.
-/

namespace Risu.Shell

open Lib

/-! ### The program -/

def ascii (cs : List Char) : List Byte := cs.map fun c => BitVec.ofNat 8 c.toNat

def exitWord : List Byte := ascii ['e', 'x', 'i', 't']

def sourceWord : List Byte := ascii ['s', 'o', 'u', 'r', 'c', 'e']

def risuWord : List Byte := ascii ['r', 'i', 's', 'u']

/-- What is seen of a command. -/
inductive Event where
  /-- `"\n%d args: "` and the words -/
  | args (ws : List (List Byte))
  /-- `"[Process completed]\n"` -/
  | completed
  /-- `"Expected filename."` -/
  | expectedFilename
  /-- A file that is not opened or not read. -/
  | failed (name : List Byte)
  /-- A call of `risu_main`. -/
  | risuMain (ws : List (List Byte))

/-- A command that reads no file. -/
def command (w : List Byte) (args : List (List Byte)) : List Event :=
  if w = exitWord then [.completed]
  else if w = sourceWord then
    match args with
    | [name] => [.failed name]
    | _ => [.expectedFilename]
  else if w = risuWord then [.risuMain (w :: args)]
  else []

def respond : List (List Byte) → List Event
  | [] => []
  | w :: args => .args (w :: args) :: command w args

/-- `while (buf && *buf)` and the call, which leaves the words in the buffer. -/
structure Called (cells : List Byte) (buf : ℕ) (x : State) (ws : List (List Byte)) : Prop where
  loops : ∃ c, cells[buf]? = some c ∧ c ≠ 0
  returns : Returns true cells buf (some x)
  argc : x.argc = ws.length
  argv : x.strings = ws.map some

/-- The loop ends, with what is seen until then.  `file` has the content of a file, with nothing where
it is not opened or not read. -/
inductive Evals (file : List Byte → Option (List Byte)) : List Byte → ℕ → List Event → Prop
  | nul {cells : List Byte} {buf : ℕ} : cells[buf]? = some 0 → Evals file cells buf []
  | exit {cells : List Byte} {buf : ℕ} {x : State} {ws : List (List Byte)} :
      Called cells buf x ws → ws.head? = some exitWord → Evals file cells buf (respond ws)
  | source {cells : List Byte} {buf : ℕ} {x : State} {name content : List Byte} {inner out : List Event} :
      Called cells buf x [sourceWord, name] → file name = some content →
      Evals file (content ++ [0]) 0 inner → Evals file x.buf.cells x.buf.read out →
      Evals file cells buf (.args [sourceWord, name] :: (inner ++ out))
  | line {cells : List Byte} {buf : ℕ} {x : State} {ws : List (List Byte)} {out : List Event} :
      Called cells buf x ws → ws.head? ≠ some exitWord →
      (∀ name, ws = [sourceWord, name] → file name = none) →
      Evals file x.buf.cells x.buf.read out → Evals file cells buf (respond ws ++ out)

/-! ### Lines -/

/-- The lines of a text, up to one that says to exit. -/
def scanLines (text : List Byte) : List (List (List Byte)) :=
  if _ : text = [] then []
  else if (scanLine text).words.head? = some exitWord then [(scanLine text).words]
  else (scanLine text).words :: scanLines (scanLine text).rest
termination_by text.length
decreasing_by
  exact length_scanLine_lt ‹_›

variable {cells text : List Byte} {start : ℕ} {x : State} {ws : List (List Byte)} {out : List Event}

/-- A pointer to a string points to its first byte. -/
theorem getElem?_of_cstring (h : cstring cells start = some text) : cells[start]? = some (text.headD 0) := by
  obtain ⟨-, tail, hcells⟩ := cstring_eq_some.mp h
  rw [← List.head?_drop, hcells]
  cases text with
  | nil => rfl
  | cons c cs => rfl

theorem getElem?_eq_zero_iff (h : cstring cells start = some text) : cells[start]? = some 0 ↔ text = [] := by
  obtain ⟨h0, -⟩ := cstring_eq_some.mp h
  rw [getElem?_of_cstring h]
  cases text with
  | nil => exact ⟨fun _ => rfl, fun _ => rfl⟩
  | cons c cs =>
    have hc : c ≠ 0 := fun hc => h0 (hc ▸ List.mem_cons_self)
    exact ⟨fun h => absurd (Option.some.inj h) hc, fun h => absurd h (List.cons_ne_nil c cs)⟩

/-- A call finds the words of a line. -/
theorem called_iff (h : cstring cells start = some text) (hne : text ≠ []) :
    ∃ x, Refines cells start text x ∧ ∀ y ws, Called cells start y ws ↔ y = x ∧ ws = (scanLine text).words := by
  obtain ⟨x, hreturns, hrefines⟩ := returns_refines h
  refine ⟨x, hrefines, fun y ws => ⟨?_, ?_⟩⟩
  · rintro ⟨-, hy, -, hargv⟩
    obtain rfl : y = x := Option.some.inj ((hreturns (some y)).mp hy)
    refine ⟨rfl, ?_⟩
    rw [hrefines.strings] at hargv
    exact (List.map_injective_iff.mpr (Option.some_injective _) hargv).symm
  · rintro ⟨rfl, rfl⟩
    have hpeek := getElem?_of_cstring h
    refine ⟨⟨_, hpeek, fun h0 => hne ?_⟩, (hreturns _).mpr rfl, hrefines.argc, hrefines.strings⟩
    exact (getElem?_eq_zero_iff h).mp (h0 ▸ hpeek)

/-- **The lines of a buffer** that names no file: the loop ends, and its commands are those of the
text as it was. -/
theorem evals_iff {file : List Byte → Option (List Byte)} (h : cstring cells start = some text)
    (hsource : ∀ ws ∈ scanLines text, ws.head? ≠ some sourceWord) :
    Evals file cells start out ↔ out = (scanLines text).flatMap respond := by
  fun_induction scanLines text generalizing cells start out with
  | case1 =>
    have hnul : cells[start]? = some 0 := (getElem?_eq_zero_iff h).mpr rfl
    refine ⟨fun hevals => ?_, fun hout => hout ▸ .nul hnul⟩
    have hstop : ∀ {x ws}, ¬Called cells start x ws := by
      rintro x ws ⟨⟨c, hc, hne⟩, -⟩
      exact hne (Option.some.inj (hc.symm.trans hnul))
    cases hevals with
    | nul => rfl
    | exit hcalled => exact absurd hcalled hstop
    | source hcalled => exact absurd hcalled hstop
    | line hcalled => exact absurd hcalled hstop
  | case2 text hne hexit =>
    obtain ⟨x, -, hcalled⟩ := called_iff h hne
    have hout : [(scanLine text).words].flatMap respond = respond (scanLine text).words := List.append_nil _
    rw [hout]
    refine ⟨fun hevals => ?_, fun hout => hout ▸ .exit ((hcalled x _).mpr ⟨rfl, rfl⟩) hexit⟩
    cases hevals with
    | nul hnul => exact absurd ((getElem?_eq_zero_iff h).mp hnul) hne
    | exit hcall => exact congrArg respond ((hcalled _ _).mp hcall).2
    | source hcall =>
      obtain ⟨-, hws⟩ := (hcalled _ _).mp hcall
      have hhead : some sourceWord = some exitWord := (congrArg List.head? hws).trans hexit
      exact absurd hhead (by decide)
    | line hcall hno => exact absurd (((hcalled _ _).mp hcall).2 ▸ hexit) hno
  | case3 text hne hexit ih =>
    obtain ⟨x, hrefines, hcalled⟩ := called_iff h hne
    have hhead : (scanLine text).words.head? ≠ some sourceWord := hsource _ List.mem_cons_self
    have hrest : ∀ {out}, Evals file x.buf.cells x.buf.read out ↔
        out = (scanLines (scanLine text).rest).flatMap respond :=
      ih hrefines.rest fun ws hws => hsource ws (List.mem_cons_of_mem _ hws)
    rw [List.flatMap_cons]
    constructor
    · intro hevals
      cases hevals with
      | nul hnul => exact absurd ((getElem?_eq_zero_iff h).mp hnul) hne
      | exit hcall hexit' => exact absurd (((hcalled _ _).mp hcall).2 ▸ hexit') hexit
      | source hcall => exact absurd (congrArg List.head? ((hcalled _ _).mp hcall).2).symm hhead
      | line hcall _ _ hevals =>
        obtain ⟨rfl, rfl⟩ := (hcalled _ _).mp hcall
        rw [hrest.mp hevals]
    · rintro rfl
      refine .line ((hcalled x _).mpr ⟨rfl, rfl⟩) hexit (fun name hws => ?_) (hrest.mpr rfl)
      exact absurd (congrArg List.head? hws) hhead

/-- **`argcargv` and the loop around it** do what a tokenizer does that reads an immutable copy: in each
call, which also moves on, and from call to call until the text is at its end. -/
theorem argcargv_exact (h : cstring cells start = some text) :
    (∃ x, (∀ r, Returns true cells start r ↔ r = some x) ∧ Refines cells start text x) ∧
      ∀ file, (∀ ws ∈ scanLines text, ws.head? ≠ some sourceWord) →
        ∀ out, Evals file cells start out ↔ out = (scanLines text).flatMap respond :=
  ⟨returns_refines h, fun _ hsource _ => evals_iff h hsource⟩

/-- The line `a "b c"` behind a blank. -/
theorem argcargv_exact_quoted :
    (∃ x, Returns true [0x20, 0x61, 0x20, 0x22, 0x62, 0x20, 0x63, 0x22, 10, 0] 1 (some x) ∧
      x.strings = [some [0x61], some [0x62, 0x20, 0x63]] ∧ x.buf.read = 9) ∧
    Evals (fun _ => none) [0x20, 0x61, 0x20, 0x22, 0x62, 0x20, 0x63, 0x22, 10, 0] 1
      [.args [[0x61], [0x62, 0x20, 0x63]]] := by
  have hcells : cstring [0x20, 0x61, 0x20, 0x22, 0x62, 0x20, 0x63, 0x22, 10, 0] 1 =
      some [0x61, 0x20, 0x22, 0x62, 0x20, 0x63, 0x22, 10] := by decide
  have hline : (scanLine [0x61, 0x20, 0x22, 0x62, 0x20, 0x63, 0x22, 10]).words = [[0x61], [0x62, 0x20, 0x63]] ∧
      (scanLine [0x61, 0x20, 0x22, 0x62, 0x20, 0x63, 0x22, 10]).rest = [] := by decide +kernel
  have hlines : scanLines [0x61, 0x20, 0x22, 0x62, 0x20, 0x63, 0x22, 10] =
      [[[0x61], [0x62, 0x20, 0x63]]] := by decide +kernel
  obtain ⟨⟨x, hreturns, hrefines⟩, hevals⟩ := argcargv_exact hcells
  rw [hlines] at hevals
  refine ⟨⟨x, (hreturns _).mpr rfl, ?_, ?_⟩, (hevals _ (by decide) _).mpr rfl⟩
  · rw [hrefines.strings, hline.1]
    rfl
  · rw [hrefines.resume, hline.2]
    rfl

end Risu.Shell
