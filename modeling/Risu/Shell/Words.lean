import Mathlib.Data.List.Infix
import Risu.Lib.ByteOrder

/-!
# The words of a line

What a line of commands says, read from a text that nothing changes.  A word ends at a blank, a line at
a line feed or a carriage return; quotes and a backslash take the meaning from what they quote.

* `scanWord` — the word at the front of a text;
* `scanLine` — the words of the line at the front of a text, and the text behind it;
* `scanWord_rest`, `scanLine_rest` — what is behind is an end of the text, and less than all of it.
-/

namespace Risu.Shell

open Lib

/-! ### Characters -/

def isBlank (c : Byte) : Bool := c = 9 || c = 0x20

def isNewline (c : Byte) : Bool := c = 10 || c = 13

/-- `"` and `'` -/
def isQuote (c : Byte) : Bool := c = 0x22 || c = 0x27

/-- The `switch` behind a backslash. -/
def unescape (c : Byte) : Byte :=
  if c = 0x5c then 0x5c
  else if c = 0x74 then 9
  else if c = 0x6e then 10
  else if c = 0x72 then 13
  else c

def missingQuote (q : Byte) : String :=
  if q = 0x22 then "Missing terminating \" quote\n" else "Missing terminating ' quote\n"

def missingChar : String := "Missing \\ quoted character\n"

theorem unescape_ne_zero {c : Byte} (h : c ≠ 0) : unescape c ≠ 0 := by
  rw [unescape]
  split_ifs
  · decide
  · decide
  · decide
  · decide
  · exact h

/-! ### Words -/

/-- A word, whether the line ends with it, the text behind it, and what is printed. -/
structure Word where
  bytes : List Byte
  ends : Bool
  rest : List Byte
  printed : List String

def Word.cons (c : Byte) (w : Word) : Word := { w with bytes := c :: w.bytes }

/-- The word at the front of the text, within a quote or outside of quotes. -/
def scanWord : Option Byte → List Byte → Word
  | none, [] => ⟨[], false, [], []⟩
  | some q, [] => ⟨[], false, [], [missingQuote q]⟩
  | some q, c :: cs => if c = q then scanWord none cs else (scanWord (some q) cs).cons c
  | none, c :: cs =>
    if isQuote c then scanWord (some c) cs
    else if c = 0x5c then
      match cs with
      | [] => ⟨[], false, [], [missingChar]⟩
      | e :: cs => (scanWord none cs).cons (unescape e)
    else if isBlank c then ⟨[], false, cs, []⟩
    else if isNewline c then ⟨[], true, cs, []⟩
    else (scanWord none cs).cons c

theorem scanWord_rest (quote : Option Byte) (text : List Byte) :
    (scanWord quote text).rest <:+ text.tail := by
  fun_induction scanWord quote text with
  | case1 | case2 | case6 => exact List.suffix_rfl
  | case3 c cs ih | case4 q c cs h ih | case5 c cs h ih | case10 c cs _ _ _ _ ih =>
    exact ih.trans (List.tail_suffix cs)
  | case7 e cs h ih => exact (ih.trans (List.tail_suffix cs)).trans (List.suffix_cons e cs)
  | case8 | case9 => exact List.suffix_rfl

theorem length_scanWord_lt (quote : Option Byte) {text : List Byte} (h : text ≠ []) :
    (scanWord quote text).rest.length < text.length := by
  have hle := (scanWord_rest quote text).length_le
  have hpos := List.length_pos_iff.mpr h
  rw [List.length_tail] at hle
  omega

/-- A word has no byte that ends a string. -/
theorem zero_notMem_scanWord {quote : Option Byte} {text : List Byte} (h : 0 ∉ text) :
    0 ∉ (scanWord quote text).bytes := by
  fun_induction scanWord quote text with
  | case1 | case2 | case6 | case8 | case9 => exact List.not_mem_nil
  | case3 c cs ih | case5 c cs _ ih => exact ih (List.not_mem_of_not_mem_cons h)
  | case4 q c cs _ ih | case10 c cs _ _ _ _ ih =>
    obtain ⟨hc, hcs⟩ := not_or.mp (mt List.mem_cons.mpr h)
    exact mt List.mem_cons.mp (not_or.mpr ⟨hc, ih hcs⟩)
  | case7 e cs _ ih =>
    obtain ⟨-, hcs⟩ := not_or.mp (mt List.mem_cons.mpr h)
    obtain ⟨he, hcs⟩ := not_or.mp (mt List.mem_cons.mpr hcs)
    exact mt List.mem_cons.mp (not_or.mpr ⟨(unescape_ne_zero (Ne.symm he)).symm, ih hcs⟩)

/-! ### Lines -/

/-- The words of a line, the text behind it, and what is printed. -/
structure Line where
  words : List (List Byte)
  rest : List Byte
  printed : List String

theorem behind_blanks {text : List Byte} {c : Byte} {cs : List Byte}
    (h : text.dropWhile isBlank = c :: cs) : cs <:+ text.tail ∧ cs.length < text.length := by
  obtain ⟨blanks, rfl⟩ : c :: cs <:+ text := h ▸ List.dropWhile_suffix isBlank
  constructor
  · cases blanks with
    | nil => exact List.suffix_rfl
    | cons b blanks => exact (List.suffix_cons c cs).trans (List.suffix_append blanks (c :: cs))
  · rw [List.length_append, List.length_cons]
    omega

theorem zero_notMem_of_dropWhile {text : List Byte} {c : Byte} {cs : List Byte} (h : 0 ∉ text)
    (hdrop : text.dropWhile isBlank = c :: cs) : 0 ∉ c :: cs :=
  fun h0 => h ((List.dropWhile_suffix isBlank).mem (hdrop ▸ h0))

theorem not_isBlank {text : List Byte} {c : Byte} {cs : List Byte} (h : text.dropWhile isBlank = c :: cs) :
    ¬isBlank c = true := by
  have hhead := List.head?_dropWhile_not isBlank text
  rw [h] at hhead
  exact Bool.eq_false_iff.mp hhead

/-- The line at the front of the text. -/
def scanLine (text : List Byte) : Line :=
  match _ : text.dropWhile isBlank with
  | [] => ⟨[], [], []⟩
  | c :: cs =>
    if isNewline c then ⟨[], cs, []⟩
    else
      let w := scanWord none (c :: cs)
      if w.ends then ⟨[w.bytes], w.rest, w.printed⟩
      else
        let l := scanLine w.rest
        ⟨w.bytes :: l.words, l.rest, w.printed ++ l.printed⟩
termination_by text.length
decreasing_by
  exact (Nat.le_of_lt_succ (length_scanWord_lt none (List.cons_ne_nil _ _))).trans_lt (behind_blanks ‹_›).2

theorem scanLine_rest (text : List Byte) : (scanLine text).rest <:+ text.tail := by
  fun_induction scanLine text with
  | case1 => exact List.nil_suffix
  | case2 text c cs h => exact (behind_blanks h).1
  | case3 text c cs h => exact (scanWord_rest none (c :: cs)).trans (behind_blanks h).1
  | case4 text c cs h _ w _ l ih =>
    have hw : w.rest <:+ text.tail := (scanWord_rest none (c :: cs)).trans (behind_blanks h).1
    exact (ih.trans (List.tail_suffix w.rest)).trans hw

theorem length_scanLine_lt {text : List Byte} (h : text ≠ []) : (scanLine text).rest.length < text.length := by
  have hle := (scanLine_rest text).length_le
  have hpos := List.length_pos_iff.mpr h
  rw [List.length_tail] at hle
  omega

theorem zero_notMem_scanLine {text : List Byte} (h : 0 ∉ text) : ∀ w ∈ (scanLine text).words, 0 ∉ w := by
  fun_induction scanLine text with
  | case1 | case2 => exact fun w hw => absurd hw List.not_mem_nil
  | case3 text c cs hdrop _ w _ =>
    intro w' hw'
    rw [List.mem_singleton.mp hw']
    exact zero_notMem_scanWord (zero_notMem_of_dropWhile h hdrop)
  | case4 text c cs hdrop _ w _ l ih =>
    intro w' hw'
    rcases List.mem_cons.mp hw' with rfl | hw'
    · exact zero_notMem_scanWord (zero_notMem_of_dropWhile h hdrop)
    · refine ih (fun h0 => zero_notMem_of_dropWhile h hdrop ?_) w' hw'
      exact List.mem_of_mem_tail ((scanWord_rest none (c :: cs)).mem h0)

end Risu.Shell
