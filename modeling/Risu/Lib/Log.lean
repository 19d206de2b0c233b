import Mathlib.Tactic.Common

/-!
# Logs and printed lines

A log is a list of entries, oldest first; what is said of an entry may depend on the entries behind it.
A report is a list of lines, some of them printed under a condition.

* `Behind` — a property of each entry and those behind it;
* `behind_append` — a log that is continued;
* `behind_iff` — the same over all ways to split the log;
* `hex`, `padRight` — the conversions `%0nx` and `%-ns`;
* `lineIf`, `linesIf` — a line, or several, for what differs;
* `exists_line_iff` — a report of more than its first line.
-/

namespace Risu.Lib

/-! ### Logs -/

section log

variable {α : Type} {P Q : α → List α → Prop}

/-- A property of each entry and those behind it. -/
def Behind (P : α → List α → Prop) : List α → Prop
  | [] => True
  | x :: xs => P x xs ∧ Behind P xs

theorem behind_append {l m : List α} :
    Behind P (l ++ m) ↔ Behind (fun x xs => P x (xs ++ m)) l ∧ Behind P m := by
  induction l with
  | nil => exact (and_iff_right trivial).symm
  | cons x l ih =>
    rw [List.cons_append, Behind, Behind, ih]
    exact and_assoc.symm

theorem Behind.imp {l : List α} (h : Behind P l) (hPQ : ∀ x xs, P x xs → Q x xs) : Behind Q l := by
  induction l with
  | nil => trivial
  | cons x l ih => exact ⟨hPQ x l h.1, ih h.2⟩

theorem Behind.and {l : List α} (hP : Behind P l) (hQ : Behind Q l) :
    Behind (fun x xs => P x xs ∧ Q x xs) l := by
  induction l with
  | nil => trivial
  | cons x l ih => exact ⟨⟨hP.1, hQ.1⟩, ih hP.2 hQ.2⟩

theorem behind_iff {l : List α} :
    Behind P l ↔ ∀ front x rest, l = front ++ x :: rest → P x rest := by
  constructor
  · rintro h front x rest rfl
    exact (behind_append.mp h).2.1
  · intro h
    induction l with
    | nil => trivial
    | cons x l ih =>
      refine ⟨h [] x l rfl, ih fun front y rest hl => ?_⟩
      exact h (x :: front) y rest (by rw [hl, List.cons_append])

end log

/-! ### Printed lines -/

/-- A number in hexadecimal with at least the given number of digits. -/
def hex (digits v : ℕ) : String :=
  let s := String.ofList (Nat.toDigits 16 v)
  "".pushn '0' (digits - s.length) ++ s

/-- A text with blanks after it, up to a width. -/
def padRight (width : ℕ) (s : String) : String := s.pushn ' ' (width - s.length)

/-- A line for a register that differs. -/
def lineIf (differs : Bool) (line : String) : List String := if differs then [line] else []

@[simp] theorem lineIf_eq_nil (differs : Bool) (line : String) :
    lineIf differs line = [] ↔ differs = false := by
  cases differs <;> simp [lineIf]

/-- Lines for a register that differs. -/
def linesIf (differs : Bool) (lines : List String) : List String := if differs then lines else []

theorem linesIf_eq_nil {lines : List String} (h : lines ≠ []) (differs : Bool) :
    linesIf differs lines = [] ↔ differs = false := by
  cases differs <;> simp [linesIf, h]

/-- Behind the first line there is another one. -/
theorem exists_line_iff {report : List String} {first : String} (h : report.head? = some first) :
    (∃ line lines, report = first :: line :: lines) ↔ report ≠ [first] := by
  cases report with
  | nil => cases h
  | cons l ls =>
    cases h
    cases ls <;> simp

end Risu.Lib
