import Mathlib.Data.List.TakeWhile
import Risu.Lib.Loop
import Risu.Lib.Rewrite
import Risu.Shell.Words

/-!
# Command lines cut in place (`argcargv`)

* `Place`, `State`, `step` — the program, one turn of one of its loops after the other, in two passes
  over a buffer that the second one rewrites;
* `Returns` — what a call returns;
* `Mid` — what holds within a pass;
* `comes_scanWord`, `ends_scanLine` — the loops of a word and of a line;
* `Refines`, `returns_refines` — the words are those of `scanLine`.
-/

namespace Risu.Shell

open Lib

/-! ### The program -/

/-- The loops, at their tests: over words, over blanks, over the characters of a word and of a quote. -/
inductive Place where
  | words
  | blanks
  | word
  | quoted (q : Byte)
  | donewords

/-- The cursors are `s` and `d`; a pointer into the buffer is a place in it.  `argv` is what `calloc`
returned, with nothing for a null pointer. -/
structure State where
  p : Bool
  place : Place
  buf : Rewrite Byte
  argc : ℕ
  argv : List (Option ℕ)
  printed : List String

namespace State

/-- `s++` -/
def next (x : State) : State := { x with buf := x.buf.next }

/-- `if (p) *d++ = c` -/
def put (x : State) (c : Byte) : Option State :=
  if x.p then (x.buf.put c).map fun buf => { x with buf } else some x

def goto (x : State) (place : Place) : State := { x with place }

def print (x : State) (message : String) : State := { x with printed := x.printed ++ [message] }

/-- `if (p) argv[argc] = d; argc++` -/
def newWord (x : State) : Option State :=
  if x.p then
    if x.argc < x.argv.length then
      some { x with argv := x.argv.set x.argc (some x.buf.write), argc := x.argc + 1 }
    else none
  else some { x with argc := x.argc + 1 }

def words (x : State) : Option State := do
  let c ← x.buf.peek
  return x.goto (if c = 0 then .donewords else .blanks)

def blanks (x : State) : Option State := do
  let c ← x.buf.peek
  if isBlank c then return x.next
  else if isNewline c then return x.next.goto .donewords
  else if c = 0 then return x.goto .words
  else return (← x.newWord).goto .word

def escaped (x : State) : Option State := do
  let c ← x.buf.peek
  if c = 0 then return x.print missingChar
  else return (← x.put (unescape c)).next

def word (x : State) : Option State := do
  let c ← x.buf.peek
  if c = 0 then return (← x.put 0).goto .words
  else if isQuote c then return x.next.goto (.quoted c)
  else if c = 0x5c then x.next.escaped
  else if isBlank c then return (← x.next.put 0).goto .words
  else if isNewline c then return (← x.next.put 0).goto .donewords
  else return (← x.put c).next

def quoted (q : Byte) (x : State) : Option State := do
  let c ← x.buf.peek
  if c = 0 then return (x.print (missingQuote q)).goto .word
  else if c = q then return x.next.goto .word
  else return (← x.put c).next

/-- The pass over the buffer from `start`. -/
def pass (p : Bool) (start : ℕ) (cells : List Byte) (argv : List (Option ℕ)) (printed : List String) :
    State where
  p := p
  place := .words
  buf := ⟨cells, start, start, []⟩
  argc := 0
  argv := argv
  printed := printed

/-- One turn; the program ends without a state where it is out of bounds. -/
def step (dargv : Bool) (start : ℕ) (x : State) : Progress State (Option State) :=
  let turn (y : Option State) : Progress State (Option State) := y.elim (.done none) .going
  match x.place with
  | .words => turn x.words
  | .blanks => turn x.blanks
  | .word => turn x.word
  | .quoted q => turn (x.quoted q)
  | .donewords =>
    if !x.p && dargv then .going (pass true start x.buf.cells (List.replicate x.argc none) x.printed)
    else .done (some x)

end State

/-- `argcargv`, called with a pointer `start` into a buffer. -/
def Returns (dargv : Bool) (cells : List Byte) (start : ℕ) (r : Option State) : Prop :=
  EndsAs (State.step dargv start) (State.pass false start cells [] []) r

/-- The string that a pointer points to. -/
def cstring (cells : List Byte) (k : ℕ) : Option (List Byte) :=
  if 0 ∈ cells.drop k then some ((cells.drop k).takeWhile (· ≠ 0)) else none

def State.strings (x : State) : List (Option (List Byte)) :=
  x.argv.map fun arg => arg.bind (cstring x.buf.cells)

/-! ### Within a pass -/

/-- The first pass writes nothing. -/
def written (p : Bool) (w vs : List Byte) : List Byte := if p then w ++ vs else w

@[simp] theorem written_nil (p : Bool) (w : List Byte) : written p w [] = w := by
  cases p with
  | false => rfl
  | true => exact List.append_nil w

theorem written_written (p : Bool) (w vs us : List Byte) :
    written p (written p w vs) us = written p w (vs ++ us) := by
  cases p with
  | false => rfl
  | true => exact List.append_assoc w vs us

/-- Within a word the cursor that writes is not ahead. -/
structure Mid (n : ℕ) (b : Rewrite Byte) (w a : List Byte) : Prop extends b.Holds n w a where
  le : b.write ≤ b.read

/-- Behind a word: `vs` is written, and a cursor ahead is at the end of the text. -/
structure After (n : ℕ) (p : Bool) (b b' : Rewrite Byte) (w vs rest tail : List Byte) : Prop where
  holds : b'.Holds n (written p w vs) (rest ++ 0 :: tail)
  le : rest ≠ [] → b'.write ≤ b'.read
  same : p = false → b'.cells = b.cells

variable {n : ℕ} {x : State} {b b' b'' : Rewrite Byte} {w a vs us rest tail : List Byte} {c : Byte}

theorem Mid.next (h : Mid n b w (c :: a)) : Mid n b.next w a where
  toHolds := h.toHolds.next
  le := Nat.le_succ_of_le h.le

theorem put_first (hp : x.p = false) (v : Byte) : x.put v = some x :=
  if_neg (hp ▸ Bool.false_ne_true)

theorem put_second (hp : x.p = true) {v : Byte} (h : x.buf.put v = some b) :
    x.put v = some { x with buf := b } := by
  rw [State.put, if_pos hp, h]
  rfl

/-- `if (p) *d++ = v; s++` -/
theorem Mid.copy (h : Mid n x.buf w (c :: a)) (v : Byte) :
    ∃ b, x.put v = some { x with buf := b } ∧ Mid n b.next (written x.p w [v]) a ∧
      (x.p = false → b.cells = x.buf.cells) := by
  rcases Bool.eq_false_or_eq_true x.p with hp | hp
  · obtain ⟨b, hput, hb, hle⟩ := h.toHolds.copy h.le v
    exact ⟨b, put_second hp hput, ⟨hp ▸ hb, hle⟩, fun hp' => absurd (hp.symm.trans hp') Bool.noConfusion⟩
  · exact ⟨x.buf, put_first hp v, hp ▸ h.next, fun _ => rfl⟩

/-- `s++; if (p) *d++ = v` -/
theorem Mid.next_put (h : Mid n x.buf w (c :: a)) (ha : a ≠ []) (v : Byte) :
    ∃ b, x.next.put v = some { x with buf := b } ∧ Mid n b (written x.p w [v]) a ∧
      (x.p = false → b.cells = x.buf.cells) := by
  obtain ⟨e, a, rfl⟩ := List.exists_cons_of_ne_nil ha
  rcases Bool.eq_false_or_eq_true x.p with hp | hp
  · obtain ⟨b, hput, hb, hle⟩ := h.next.toHolds.put (Nat.lt_succ_of_le h.le) v
    exact ⟨b, put_second (x := x.next) hp hput, ⟨hp ▸ hb, hle⟩, fun hp' => absurd (hp.symm.trans hp') Bool.noConfusion⟩
  · exact ⟨x.buf.next, put_first (x := x.next) hp v, hp ▸ h.next, fun _ => rfl⟩

/-- `if (p) *d++ = 0`, at the end of the text. -/
theorem Mid.put_zero (h : Mid n x.buf w (0 :: tail)) :
    ∃ b, x.put 0 = some { x with buf := b } ∧ After n x.p x.buf b w [0] [] tail := by
  rcases Bool.eq_false_or_eq_true x.p with hp | hp
  · obtain ⟨b, hput, hb⟩ := h.toHolds.close h.le
    exact ⟨b, put_second hp hput, hp ▸ hb, fun h => absurd rfl h,
      fun hp' => absurd (hp.symm.trans hp') Bool.noConfusion⟩
  · exact ⟨x.buf, put_first hp 0, hp ▸ h.toHolds, fun h => absurd rfl h, fun _ => rfl⟩

theorem After.trans {p : Bool} (h : p = false → b'.cells = b.cells)
    (h' : After n p b' b'' (written p w vs) us rest tail) : After n p b b'' w (vs ++ us) rest tail where
  holds := written_written p w vs us ▸ h'.holds
  le := h'.le
  same := fun hp => (h'.same hp).trans (h hp)

/-! ### The loops of a word -/

theorem words_eq (h : x.buf.peek = some c) :
    x.words = some (x.goto (if c = 0 then .donewords else .blanks)) := by
  rw [State.words, h]
  rfl

theorem blanks_eq (h : x.buf.peek = some c) :
    x.blanks =
      if isBlank c then some x.next
      else if isNewline c then some (x.next.goto .donewords)
      else if c = 0 then some (x.goto .words)
      else x.newWord.bind fun y => some (y.goto .word) := by
  rw [State.blanks, h]
  rfl

theorem escaped_eq (h : x.buf.peek = some c) :
    x.escaped =
      if c = 0 then some (x.print missingChar) else (x.put (unescape c)).bind fun y => some y.next := by
  rw [State.escaped, h]
  rfl

theorem word_eq (h : x.buf.peek = some c) :
    x.word =
      if c = 0 then (x.put 0).bind fun y => some (y.goto .words)
      else if isQuote c then some (x.next.goto (.quoted c))
      else if c = 0x5c then x.next.escaped
      else if isBlank c then (x.next.put 0).bind fun y => some (y.goto .words)
      else if isNewline c then (x.next.put 0).bind fun y => some (y.goto .donewords)
      else (x.put c).bind fun y => some y.next := by
  rw [State.word, h]
  rfl

theorem quoted_eq (q : Byte) (h : x.buf.peek = some c) :
    x.quoted q =
      if c = 0 then some ((x.print (missingQuote q)).goto .word)
      else if c = q then some (x.next.goto .word)
      else (x.put c).bind fun y => some y.next := by
  rw [State.quoted, h]
  rfl

section

variable {dargv : Bool} {start : ℕ} {y : State}

theorem step_words (hplace : x.place = .words) (h : x.words = some y) :
    State.step dargv start x = .going y := by
  rw [State.step, hplace]
  exact congrArg (Option.elim · _ _) h

theorem step_blanks (hplace : x.place = .blanks) (h : x.blanks = some y) :
    State.step dargv start x = .going y := by
  rw [State.step, hplace]
  exact congrArg (Option.elim · _ _) h

theorem step_word (hplace : x.place = .word) (h : x.word = some y) :
    State.step dargv start x = .going y := by
  rw [State.step, hplace]
  exact congrArg (Option.elim · _ _) h

theorem step_quoted {q : Byte} (hplace : x.place = .quoted q) (h : x.quoted q = some y) :
    State.step dargv start x = .going y := by
  rw [State.step, hplace]
  exact congrArg (Option.elim · _ _) h

end

/-- The program comes to the end of a word. -/
def Comes (dargv : Bool) (start n : ℕ) (tail : List Byte) (x : State) (w : List Byte) (out : Word) : Prop :=
  ∃ b, Leads (State.step dargv start) x { x with
      place := if out.ends then .donewords else .words
      buf := b
      printed := x.printed ++ out.printed } ∧
    After n x.p x.buf b w (out.bytes ++ [0]) out.rest tail

section

variable {dargv : Bool} {start : ℕ} {out : Word} {place : Place}

/-- A turn that writes `vs`. -/
theorem Comes.step (vs : List Byte) (hstep : State.step dargv start x = .going { x with place := place, buf := b })
    (hcells : x.p = false → b.cells = x.buf.cells)
    (h : Comes dargv start n tail { x with place := place, buf := b } (written x.p w vs) out) :
    Comes dargv start n tail x w { out with bytes := vs ++ out.bytes } := by
  obtain ⟨b', hleads, hafter⟩ := h
  refine ⟨b', hleads.going hstep, ?_⟩
  show After n x.p x.buf b' w (vs ++ out.bytes ++ [0]) out.rest tail
  rw [List.append_assoc]
  exact After.trans hcells hafter

/-- A turn that prints a message. -/
theorem Comes.print {message : String}
    (hstep : State.step dargv start x =
      .going { x with place := place, buf := b, printed := x.printed ++ [message] })
    (hcells : b.cells = x.buf.cells)
    (h : Comes dargv start n tail
      { x with place := place, buf := b, printed := x.printed ++ [message] } w out) :
    Comes dargv start n tail x w { out with printed := message :: out.printed } := by
  obtain ⟨b', hleads, hafter⟩ := h
  refine ⟨b', ?_, ?_⟩
  · dsimp only at hleads
    rw [List.append_assoc] at hleads
    exact hleads.going hstep
  · exact ⟨hafter.holds, hafter.le, fun hp => (hafter.same hp).trans hcells⟩

/-- The end of the text. -/
theorem comes_nil (hplace : x.place = .word) (h : Mid n x.buf w (0 :: tail)) :
    Comes dargv start n tail x w ⟨[], false, [], []⟩ := by
  obtain ⟨b, hput, hafter⟩ := h.put_zero
  have hword : x.word = some { x with place := .words, buf := b } := by
    rw [word_eq h.peek, if_pos rfl, hput]
    rfl
  refine ⟨b, ?_, hafter⟩
  rw [List.append_nil]
  exact Leads.going (step_word hplace hword) (.refl _)

/-- A character that ends a word, and may end a line. -/
theorem comes_end {ends : Bool} (h : Mid n x.buf w (c :: (rest ++ 0 :: tail)))
    (hturn : ∀ b, x.next.put 0 = some { x with buf := b } → State.step dargv start x =
      .going { x with place := if ends then .donewords else .words, buf := b }) :
    Comes dargv start n tail x w ⟨[], ends, rest, []⟩ := by
  obtain ⟨b, hput, hmid, hcells⟩ := h.next_put (List.append_ne_nil_of_right_ne_nil _ (List.cons_ne_nil _ _)) 0
  refine ⟨b, ?_, hmid.toHolds, fun _ => hmid.le, hcells⟩
  rw [List.append_nil]
  exact Leads.going (hturn b hput) (.refl _)

/-- The loop for the characters within a quote or outside of quotes. -/
def placeOf : Option Byte → Place
  | none => .word
  | some q => .quoted q

/-- **A word**: the loops come to the end of the word that `scanWord` finds. -/
theorem comes_scanWord {quote : Option Byte} {text : List Byte} (hquote : quote ≠ some 0) (h0 : 0 ∉ text)
    (hplace : x.place = placeOf quote) (h : Mid n x.buf w (text ++ 0 :: tail)) :
    Comes dargv start n tail x w (scanWord quote text) := by
  fun_induction scanWord quote text generalizing x w with
  | case1 => exact comes_nil hplace h
  | case2 q =>
    have hturn : x.quoted q =
        some { x with place := .word, buf := x.buf, printed := x.printed ++ [missingQuote q] } :=
      quoted_eq q h.peek
    exact .print (step_quoted hplace hturn) rfl (comes_nil rfl h)
  | case3 c cs ih =>
    obtain ⟨hc, hcs⟩ := not_or.mp (mt List.mem_cons.mpr h0)
    have hturn : x.quoted c = some { x with place := .word, buf := x.buf.next } := by
      rw [quoted_eq c h.peek, if_neg (Ne.symm hc), if_pos rfl]
      rfl
    refine .step [] (step_quoted hplace hturn) (fun _ => rfl) ?_
    rw [written_nil]
    exact ih (Option.some_ne_none _).symm hcs rfl h.next
  | case4 q c cs hcq ih =>
    obtain ⟨hc, hcs⟩ := not_or.mp (mt List.mem_cons.mpr h0)
    obtain ⟨b, hput, hmid, hcells⟩ := h.copy c
    have hturn : x.quoted q = some { x with place := x.place, buf := b.next } := by
      rw [quoted_eq q h.peek, if_neg (Ne.symm hc), if_neg hcq, hput]
      rfl
    exact .step [c] (step_quoted hplace hturn) hcells (ih hquote hcs hplace hmid)
  | case5 c cs hq ih =>
    obtain ⟨hc, hcs⟩ := not_or.mp (mt List.mem_cons.mpr h0)
    have hturn : x.word = some { x with place := .quoted c, buf := x.buf.next } := by
      rw [word_eq h.peek, if_neg (Ne.symm hc), if_pos hq]
      rfl
    refine .step [] (step_word hplace hturn) (fun _ => rfl) ?_
    rw [written_nil]
    exact ih (fun h => hc (Option.some.inj h).symm) hcs rfl h.next
  | case6 hq =>
    have hturn : x.word =
        some { x with place := x.place, buf := x.buf.next, printed := x.printed ++ [missingChar] } :=
      (word_eq h.peek).trans (escaped_eq (x := x.next) h.next.peek)
    exact .print (step_word hplace hturn) rfl (comes_nil hplace h.next)
  | case7 e cs hq ih =>
    obtain ⟨-, hecs⟩ := not_or.mp (mt List.mem_cons.mpr h0)
    obtain ⟨he, hcs⟩ := not_or.mp (mt List.mem_cons.mpr hecs)
    obtain ⟨b, hput, hmid, hcells⟩ := Mid.copy (x := x.next) h.next (unescape e)
    have hturn : x.word = some { x with place := x.place, buf := b.next } := by
      refine (word_eq h.peek).trans ((escaped_eq (x := x.next) h.next.peek).trans ?_)
      rw [if_neg (Ne.symm he), hput]
      rfl
    exact .step [unescape e] (step_word hplace hturn) hcells (ih hquote hcs hplace hmid)
  | case8 c cs hq hbs hblank =>
    obtain ⟨hc, -⟩ := not_or.mp (mt List.mem_cons.mpr h0)
    refine comes_end h fun b hput => step_word hplace ?_
    rw [word_eq h.peek, if_neg (Ne.symm hc), if_neg hq, if_neg hbs, if_pos hblank, hput]
    rfl
  | case9 c cs hq hbs hblank hnl =>
    obtain ⟨hc, -⟩ := not_or.mp (mt List.mem_cons.mpr h0)
    refine comes_end h fun b hput => step_word hplace ?_
    rw [word_eq h.peek, if_neg (Ne.symm hc), if_neg hq, if_neg hbs, if_neg hblank, if_pos hnl, hput]
    rfl
  | case10 c cs hq hbs hblank hnl ih =>
    obtain ⟨hc, hcs⟩ := not_or.mp (mt List.mem_cons.mpr h0)
    obtain ⟨b, hput, hmid, hcells⟩ := h.copy c
    have hturn : x.word = some { x with place := x.place, buf := b.next } := by
      rw [word_eq h.peek, if_neg (Ne.symm hc), if_neg hq, if_neg hbs, if_neg hblank, if_neg hnl, hput]
      rfl
    exact .step [c] (step_word hplace hturn) hcells (ih hquote hcs hplace hmid)

/-! ### The loops of a line -/

/-- Words as they are written. -/
def terminated (ws : List (List Byte)) : List Byte := ws.flatMap (· ++ [0])

/-- Where the words are that are written from `k` on. -/
def offsets : ℕ → List (List Byte) → List ℕ
  | _, [] => []
  | k, w :: ws => k :: offsets (k + (w.length + 1)) ws

theorem length_offsets (k : ℕ) (ws : List (List Byte)) : (offsets k ws).length = ws.length := by
  induction ws generalizing k with
  | nil => rfl
  | cons w ws ih => exact congrArg (· + 1) (ih _)

theorem leads_blanks {text : List Byte} (hplace : x.place = .blanks)
    (h : Mid n x.buf w (text ++ 0 :: tail)) :
    ∃ b, Leads (State.step dargv start) x { x with buf := b } ∧
      Mid n b w (text.dropWhile isBlank ++ 0 :: tail) ∧ b.cells = x.buf.cells := by
  induction text generalizing x with
  | nil => exact ⟨x.buf, .refl x, h, rfl⟩
  | cons c cs ih =>
    by_cases hc : isBlank c = true
    · have hturn : x.blanks = some x.next := (blanks_eq h.peek).trans (if_pos hc)
      obtain ⟨b, hleads, hmid, hcells⟩ := @ih x.next hplace h.next
      rw [List.dropWhile_cons_of_pos hc]
      exact ⟨b, hleads.going (step_blanks hplace hturn), hmid, hcells⟩
    · rw [List.dropWhile_cons_of_neg hc]
      exact ⟨x.buf, .refl x, h, rfl⟩

/-- The start of a line that is not empty. -/
theorem leads_start {text : List Byte} (htext : text ≠ []) (h0 : 0 ∉ text) (hplace : x.place = .words)
    (h : x.buf.Holds n w (text ++ 0 :: tail)) (hle : text ≠ [] → x.buf.write ≤ x.buf.read) :
    ∃ b, Leads (State.step dargv start) x { x with place := .blanks, buf := b } ∧
      Mid n b w (text.dropWhile isBlank ++ 0 :: tail) ∧ b.cells = x.buf.cells := by
  obtain ⟨c, cs, rfl⟩ := List.exists_cons_of_ne_nil htext
  obtain ⟨hc, -⟩ := not_or.mp (mt List.mem_cons.mpr h0)
  have hturn : x.words = some (x.goto .blanks) := by
    rw [words_eq h.peek, if_neg (Ne.symm hc)]
  obtain ⟨b, hleads, hmid, hcells⟩ := @leads_blanks n (x.goto .blanks) w tail dargv start (c :: cs) rfl
    ⟨h, hle htext⟩
  exact ⟨b, hleads.going (step_words hplace hturn), hmid, hcells⟩

/-- The end of the text. -/
theorem leads_end (hplace : x.place = .words) (h : x.buf.Holds n w (0 :: tail)) :
    Leads (State.step dargv start) x { x with place := .donewords } := by
  exact Leads.going (step_words hplace (words_eq h.peek)) (.refl _)

/-- The pointers that are to be set are the last `k`. -/
def Slots (x : State) (args : List (Option ℕ)) (k : ℕ) : Prop :=
  x.p = true → x.argv = args ++ List.replicate k none ∧ args.length = x.argc

theorem newWord_eq {args : List (Option ℕ)} {k : ℕ} (h : Mid n x.buf w (c :: a))
    (hslots : Slots x args (k + 1)) :
    ∃ argv, x.newWord = some { x with argv := argv, argc := x.argc + 1 } ∧
      Slots { x with argv := argv, argc := x.argc + 1 } (args ++ [some w.length]) k := by
  rcases Bool.eq_false_or_eq_true x.p with hp | hp
  · obtain ⟨hargv, hlen⟩ := hslots hp
    have hlt : x.argc < x.argv.length := by
      rw [hargv, List.length_append, List.length_replicate, hlen]
      omega
    refine ⟨x.argv.set x.argc (some x.buf.write), ?_, fun _ => ⟨?_, ?_⟩⟩
    · rw [State.newWord, if_pos hp, if_pos hlt]
    · show x.argv.set x.argc (some x.buf.write) = _
      rw [hargv, ← hlen, List.set_append_right _ _ le_rfl, Nat.sub_self, h.write_eq h.le,
        List.append_assoc]
      rfl
    · rw [List.length_append, hlen]
      rfl
  · refine ⟨x.argv, ?_, fun hp' => absurd (hp.symm.trans hp') Bool.noConfusion⟩
    rw [State.newWord, hp]
    rfl

/-- A further word of a line. -/
theorem leads_word {text cs : List Byte} {args : List (Option ℕ)} {k : ℕ}
    (hdrop : text.dropWhile isBlank = c :: cs) (hnl : ¬isNewline c = true) (h0 : 0 ∉ text)
    (hplace : x.place = .words) (h : x.buf.Holds n w (text ++ 0 :: tail))
    (hle : text ≠ [] → x.buf.write ≤ x.buf.read) (hslots : Slots x args (k + 1)) :
    ∃ b argv, Leads (State.step dargv start) x { x with
        place := if (scanWord none (c :: cs)).ends then .donewords else .words
        buf := b
        argc := x.argc + 1
        argv := argv
        printed := x.printed ++ (scanWord none (c :: cs)).printed } ∧
      After n x.p x.buf b w ((scanWord none (c :: cs)).bytes ++ [0]) (scanWord none (c :: cs)).rest tail ∧
      (x.p = true → argv = (args ++ [some w.length]) ++ List.replicate k none ∧
        (args ++ [some w.length]).length = x.argc + 1) := by
  have htext : text ≠ [] := by
    rintro rfl
    cases hdrop
  have hccs := zero_notMem_of_dropWhile h0 hdrop
  obtain ⟨hc, -⟩ := not_or.mp (mt List.mem_cons.mpr hccs)
  obtain ⟨b, hleads, hmid, hcells⟩ := leads_start htext h0 hplace h hle
  rw [hdrop] at hmid
  obtain ⟨argv, hnew, hslots'⟩ := @newWord_eq n { x with place := .blanks, buf := b } w _ c args k hmid hslots
  have hturn : State.blanks { x with place := .blanks, buf := b } =
      some { x with place := .word, buf := b, argv := argv, argc := x.argc + 1 } := by
    rw [blanks_eq hmid.peek, if_neg (not_isBlank hdrop), if_neg hnl, if_neg (Ne.symm hc), hnew]
    rfl
  obtain ⟨b', hleads', hafter⟩ := @comes_scanWord n
    { x with place := .word, buf := b, argv := argv, argc := x.argc + 1 } w tail dargv start none (c :: cs)
    (Option.some_ne_none _).symm hccs rfl hmid
  refine ⟨b', argv, hleads.trans (Leads.going (step_blanks rfl hturn) hleads'), ?_, hslots'⟩
  exact ⟨hafter.holds, hafter.le, fun hp => (hafter.same hp).trans hcells⟩

/-- The program comes to the end of a line. -/
def Ends (dargv : Bool) (start n : ℕ) (tail : List Byte) (x : State) (w : List Byte)
    (args : List (Option ℕ)) (out : Line) : Prop :=
  ∃ b argv, Leads (State.step dargv start) x { x with
      place := .donewords
      buf := b
      argc := x.argc + out.words.length
      argv := argv
      printed := x.printed ++ out.printed } ∧
    After n x.p x.buf b w (terminated out.words) out.rest tail ∧
    (x.p = true → argv = args ++ (offsets w.length out.words).map some)

/-- A line without a further word. -/
theorem ends_nil {args : List (Option ℕ)} {rest : List Byte}
    (hleads : Leads (State.step dargv start) x { x with place := .donewords, buf := b })
    (h : b.Holds n w (rest ++ 0 :: tail)) (hle : rest ≠ [] → b.write ≤ b.read)
    (hcells : b.cells = x.buf.cells) (hslots : Slots x args 0) :
    Ends dargv start n tail x w args ⟨[], rest, []⟩ := by
  refine ⟨b, x.argv, ?_, ⟨?_, hle, fun _ => hcells⟩, fun hp => (hslots hp).1⟩
  · rw [List.append_nil]
    exact hleads
  · show b.Holds n (written x.p w []) (rest ++ 0 :: tail)
    rw [written_nil]
    exact h

/-- **A line**: the loops come to the end of the line that `scanLine` finds. -/
theorem ends_scanLine {text : List Byte} {args : List (Option ℕ)} (h0 : 0 ∉ text)
    (hplace : x.place = .words) (h : x.buf.Holds n w (text ++ 0 :: tail))
    (hle : text ≠ [] → x.buf.write ≤ x.buf.read) (hslots : Slots x args (scanLine text).words.length) :
    Ends dargv start n tail x w args (scanLine text) := by
  fun_induction scanLine text generalizing x w args with
  | case1 text hdrop =>
    by_cases htext : text = []
    · subst htext
      exact ends_nil (leads_end hplace h) h (fun h => absurd rfl h) rfl hslots
    obtain ⟨b, hleads, hmid, hcells⟩ := leads_start htext h0 hplace h hle
    rw [hdrop] at hmid
    have hturn : State.blanks { x with place := .blanks, buf := b } =
        some { x with place := .words, buf := b } := by
      rw [blanks_eq hmid.peek]
      rfl
    refine ends_nil ?_ hmid.toHolds (fun h => absurd rfl h) hcells hslots
    exact hleads.trans (Leads.going (step_blanks rfl hturn) (leads_end rfl hmid.toHolds))
  | case2 text c cs hdrop hnl =>
    have htext : text ≠ [] := by
      rintro rfl
      cases hdrop
    obtain ⟨b, hleads, hmid, hcells⟩ := leads_start htext h0 hplace h hle
    rw [hdrop] at hmid
    have hturn : State.blanks { x with place := .blanks, buf := b } =
        some { x with place := .donewords, buf := b.next } := by
      rw [blanks_eq hmid.peek, if_neg (not_isBlank hdrop), if_pos hnl]
      rfl
    exact ends_nil (hleads.trans (Leads.going (step_blanks rfl hturn) (.refl _))) hmid.next.toHolds
      (fun _ => hmid.next.le) hcells hslots
  | case3 text c cs hdrop hnl out =>
    rename_i hends
    obtain ⟨b, argv, hleads, hafter, hargv⟩ := leads_word (k := 0) hdrop hnl h0 hplace h hle hslots
    rw [if_pos hends] at hleads
    exact ⟨b, argv, hleads, by rwa [terminated, List.flatMap_cons, List.flatMap_nil, List.append_nil],
      fun hp => (hargv hp).1.trans (List.append_nil _)⟩
  | case4 text c cs hdrop hnl out hends =>
    rename_i l ih
    obtain ⟨b, argv, hleads, hafter, hargv⟩ := leads_word hdrop hnl h0 hplace h hle hslots
    rw [if_neg hends] at hleads
    have hrest : 0 ∉ out.rest := fun h => zero_notMem_of_dropWhile h0 hdrop
      (List.mem_of_mem_tail ((scanWord_rest none (c :: cs)).mem h))
    obtain ⟨b', argv', hleads', hafter', hargv'⟩ := @ih { x with
        place := .words
        buf := b
        argc := x.argc + 1
        argv := argv
        printed := x.printed ++ out.printed } _ _ hrest rfl hafter.holds hafter.le hargv
    have hcount : x.argc + 1 + l.words.length = x.argc + (l.words.length + 1) := by omega
    dsimp only at hleads'
    rw [hcount, List.append_assoc] at hleads'
    refine ⟨b', argv', hleads.trans hleads', ?_, fun hp => ?_⟩
    · rw [terminated, List.flatMap_cons]
      exact After.trans hafter.same hafter'
    · rw [hargv' hp, List.append_assoc]
      have hlen : (written x.p w (out.bytes ++ [0])).length = w.length + (out.bytes.length + 1) := by
        rw [written, if_pos hp, List.length_append, List.length_append]
        rfl
      rw [hlen]
      rfl

end

/-! ### Strings -/

theorem cstring_eq_some {cells text : List Byte} {k : ℕ} :
    cstring cells k = some text ↔ 0 ∉ text ∧ ∃ tail, cells.drop k = text ++ 0 :: tail := by
  rw [cstring]
  constructor
  · intro h
    split_ifs at h with h0
    obtain rfl := Option.some.inj h
    refine ⟨fun hmem => ?_, ?_⟩
    · have hkept := List.mem_takeWhile_imp hmem
      exact of_decide_eq_true hkept rfl
    · have hne : (cells.drop k).dropWhile (· ≠ 0) ≠ [] := by
        rw [ne_eq, List.dropWhile_eq_nil_iff]
        exact fun hall => absurd rfl (of_decide_eq_true (hall 0 h0))
      obtain ⟨c, tail, hdrop⟩ := List.exists_cons_of_ne_nil hne
      have hc : c = 0 := by
        have hhead := List.head?_dropWhile_not (· ≠ (0 : Byte)) (cells.drop k)
        rw [hdrop] at hhead
        exact not_not.mp (of_decide_eq_false hhead)
      refine ⟨tail, ?_⟩
      rw [hc] at hdrop
      rw [← hdrop]
      exact (List.takeWhile_append_dropWhile).symm
  · rintro ⟨h0, tail, hdrop⟩
    have hall : ∀ c ∈ text, decide (c ≠ 0) = true := fun c hc => decide_eq_true fun h => h0 (h ▸ hc)
    rw [hdrop, if_pos (List.mem_append_right _ List.mem_cons_self), List.takeWhile_append_of_pos hall]
    exact congrArg some (List.append_nil text)

/-- The pointers to words that were written point to them. -/
theorem map_cstring_offsets {ws : List (List Byte)} (h0 : ∀ v ∈ ws, 0 ∉ v) (w rest : List Byte) :
    (offsets w.length ws).map (cstring (w ++ terminated ws ++ rest)) = ws.map some := by
  induction ws generalizing w with
  | nil => rfl
  | cons v ws ih =>
    have hcells : w ++ terminated (v :: ws) ++ rest = w ++ (v ++ [0]) ++ terminated ws ++ rest := by
      rw [terminated, List.flatMap_cons, ← List.append_assoc]
      rfl
    have hlen : (w ++ (v ++ [0])).length = w.length + (v.length + 1) := by
      rw [List.length_append, List.length_append]
      rfl
    have hfirst : cstring (w ++ (v ++ [0]) ++ terminated ws ++ rest) w.length = some v := by
      refine cstring_eq_some.mpr ⟨h0 v List.mem_cons_self, terminated ws ++ rest, ?_⟩
      rw [List.append_assoc, List.append_assoc, List.drop_left, List.append_assoc]
      rfl
    rw [hcells, offsets, List.map_cons, hfirst, ← hlen,
      ih (fun v' hv' => h0 v' (List.mem_cons_of_mem v hv'))]
    rfl

/-! ### A call -/

/-- What a call finds: the words of the line, and where it ends. -/
structure Refines (cells : List Byte) (start : ℕ) (text : List Byte) (x : State) : Prop where
  argc : x.argc = (scanLine text).words.length
  strings : x.strings = (scanLine text).words.map some
  /-- The pointer that is returned. -/
  resume : x.buf.read = start + (text.length - (scanLine text).rest.length)
  rest : cstring x.buf.cells x.buf.read = some (scanLine text).rest
  /-- The first pass counts as many words: it is what the array is allocated for. -/
  passes : x.argv.length = x.argc
  /-- No byte is written ahead of the cursor that reads. -/
  behind : ∀ t ∈ x.buf.stores, t.1 ≤ t.2
  unchanged : x.buf.cells.drop x.buf.read = cells.drop x.buf.read
  advances : text ≠ [] → start < x.buf.read
  /-- Each pass prints. -/
  printed : x.printed = (scanLine text).printed ++ (scanLine text).printed

section

variable {dargv p : Bool} {start : ℕ} {cells text : List Byte}

/-- A pass over the buffer. -/
theorem ends_pass {argv : List (Option ℕ)} {printed : List String} (h0 : 0 ∉ text)
    (hcells : cells.drop start = text ++ 0 :: tail)
    (hargv : p = true → argv = List.replicate (scanLine text).words.length none) :
    Ends dargv start cells.length tail (State.pass p start cells argv printed) (cells.take start) []
      (scanLine text) := by
  refine ends_scanLine h0 rfl ?_ (fun _ => le_rfl) fun hp => ⟨hargv hp, rfl⟩
  exact ⟨rfl, rfl, hcells, fun t ht => absurd ht List.not_mem_nil⟩

theorem step_last {dargv : Bool} (hplace : x.place = .donewords) (h : (!x.p && dargv) = false) :
    State.step dargv start x = .done (some x) := by
  rw [State.step, hplace]
  exact if_neg (h ▸ Bool.false_ne_true)

theorem step_again (hplace : x.place = .donewords) (h : x.p = false) : State.step true start x =
    .going (State.pass true start x.buf.cells (List.replicate x.argc none) x.printed) := by
  rw [State.step, hplace, h]
  rfl

/-- With a null pointer for `dargv` there is one pass, which changes nothing. -/
theorem returns_null (h0 : 0 ∉ text) (hcells : cells.drop start = text ++ 0 :: tail) :
    ∃ x, (∀ r, Returns false cells start r ↔ r = some x) ∧ x.buf.cells = cells ∧
      x.argc = (scanLine text).words.length := by
  have hpass : Ends false start cells.length tail (State.pass false start cells [] []) (cells.take start) []
      (scanLine text) := ends_pass h0 hcells Bool.noConfusion
  obtain ⟨b, argv, hleads, hafter, -⟩ := hpass
  refine ⟨_, fun r => (hleads r).trans ((endsAs_done (step_last rfl rfl)).trans eq_comm), hafter.same rfl, ?_⟩
  exact Nat.zero_add _

/-- The first pass counts the words, and the second starts with an array for them. -/
theorem leads_second (h0 : 0 ∉ text) (hcells : cells.drop start = text ++ 0 :: tail) :
    Leads (State.step true start) (State.pass false start cells [] [])
      (State.pass true start cells (List.replicate (scanLine text).words.length none)
        (scanLine text).printed) := by
  have hpass : Ends true start cells.length tail (State.pass false start cells [] []) (cells.take start) []
      (scanLine text) := ends_pass h0 hcells Bool.noConfusion
  obtain ⟨b, argv, hleads, hafter, -⟩ := hpass
  have hsame : b.cells = cells := hafter.same rfl
  refine hleads.trans (Leads.going ?_ (.refl _))
  rw [step_again rfl rfl]
  show Progress.going (State.pass true start b.cells
    (List.replicate (0 + (scanLine text).words.length) none) ([] ++ (scanLine text).printed)) = _
  rw [hsame, Nat.zero_add, List.nil_append]

/-- Where a list ends with the same, the places differ by what is before. -/
theorem eq_add_of_drop {cells' front ahead : List Byte} {i j : ℕ} (hlen : cells'.length = cells.length)
    (hne : ahead ≠ []) (h : cells.drop i = front ++ ahead) (h' : cells'.drop j = ahead) :
    j = i + front.length := by
  have hpos := List.length_pos_iff.mpr hne
  have hi := congrArg List.length h
  have hj := congrArg List.length h'
  rw [List.length_drop, List.length_append] at hi
  rw [List.length_drop, hlen] at hj
  omega

/-- The words are those of the text as it was, read by two passes over a buffer that the second one
rewrites. -/
theorem returns_refines (h : cstring cells start = some text) :
    ∃ x, (∀ r, Returns true cells start r ↔ r = some x) ∧ Refines cells start text x := by
  obtain ⟨h0, tail, hcells⟩ := cstring_eq_some.mp h
  have hpass : Ends true start cells.length tail (State.pass true start cells
      (List.replicate (scanLine text).words.length none) (scanLine text).printed)
      (cells.take start) [] (scanLine text) := ends_pass h0 hcells fun _ => rfl
  obtain ⟨b, argv, hleads, ⟨hholds, -, -⟩, hargv⟩ := hpass
  have hargv : argv = (offsets (cells.take start).length (scanLine text).words).map some := hargv rfl
  have hholds : b.Holds cells.length (cells.take start ++ terminated (scanLine text).words)
      ((scanLine text).rest ++ 0 :: tail) := hholds
  refine ⟨_, fun r => (((leads_second h0 hcells).trans hleads) r).trans
    ((endsAs_done (step_last rfl rfl)).trans eq_comm), ?_⟩
  obtain ⟨front, hfront⟩ := (scanLine_rest text).trans (List.tail_suffix text)
  have htext : text.length = front.length + (scanLine text).rest.length := by
    rw [← List.length_append, hfront]
  have hrest : cells.drop start = front ++ ((scanLine text).rest ++ 0 :: tail) := by
    rw [hcells, ← List.append_assoc, hfront]
  have hread : b.read = start + front.length :=
    eq_add_of_drop hholds.length (List.append_ne_nil_of_right_ne_nil _ (List.cons_ne_nil _ _)) hrest hholds.ahead
  have hsplit : cells.take start ++ terminated (scanLine text).words ++ b.cells.drop b.write = b.cells := by
    rw [← hholds.written]
    exact List.take_append_drop _ _
  have hstrings := map_cstring_offsets (zero_notMem_scanLine h0) (cells.take start) (b.cells.drop b.write)
  refine ⟨Nat.zero_add _, ?_, ?_, ?_, ?_, hholds.stores, ?_, fun hne => ?_, rfl⟩
  · show argv.map (fun arg => arg.bind (cstring b.cells)) = _
    rw [hargv, List.map_map, ← hstrings, hsplit]
    rfl
  · show b.read = start + (text.length - (scanLine text).rest.length)
    rw [hread, htext, Nat.add_sub_cancel]
  · exact cstring_eq_some.mpr ⟨fun h => h0 (hfront ▸ List.mem_append_right _ h), tail, hholds.ahead⟩
  · show argv.length = 0 + _
    rw [hargv, List.length_map, length_offsets, Nat.zero_add]
  · show b.cells.drop b.read = cells.drop b.read
    rw [hholds.ahead, hread, ← List.drop_drop, hrest, List.drop_left]
  · have hlt := length_scanLine_lt hne
    show start < b.read
    omega

end

end Risu.Shell
