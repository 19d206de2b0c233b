import Mathlib.Order.Lattice

/-!
# Lists that are rewritten while they are read

A list with a cursor that reads and a cursor that writes.  As long as the second is not ahead of the
first, what is written does not change what is still to be read.

* `Rewrite`, `peek`, `next`, `put` — the cursors and what is done with them;
* `Holds` — what is written and what is still to be read;
* `Holds.next`, `Holds.put`, `Holds.copy`, `Holds.close` — each step.
-/

namespace Risu.Lib

variable {α : Type}

/-- The log has where each value was written, with the place of the cursor that reads then. -/
structure Rewrite (α : Type) where
  cells : List α
  read : ℕ
  write : ℕ
  stores : List (ℕ × ℕ)

namespace Rewrite

def peek (t : Rewrite α) : Option α := t.cells[t.read]?

def next (t : Rewrite α) : Rewrite α := { t with read := t.read + 1 }

/-- `none` behind the end of the list. -/
def put (t : Rewrite α) (v : α) : Option (Rewrite α) :=
  if t.write < t.cells.length then
    some { t with
      cells := t.cells.set t.write v
      write := t.write + 1
      stores := t.stores ++ [(t.write, t.read)] }
  else none

/-- What is written, and what is still to be read, in a list of `n` values; no value was written ahead
of the cursor that reads. -/
structure Holds (n : ℕ) (t : Rewrite α) (written ahead : List α) : Prop where
  length : t.cells.length = n
  written : t.cells.take t.write = written
  ahead : t.cells.drop t.read = ahead
  stores : ∀ x ∈ t.stores, x.1 ≤ x.2

variable {n : ℕ} {t : Rewrite α} {w a : List α} {c : α}

namespace Holds

theorem peek (h : t.Holds n w (c :: a)) : t.peek = some c := by
  rw [Rewrite.peek, ← List.head?_drop, h.ahead]
  rfl

theorem next (h : t.Holds n w (c :: a)) : t.next.Holds n w a where
  length := h.length
  written := h.written
  ahead := by
    show t.cells.drop (t.read + 1) = a
    rw [← List.tail_drop, h.ahead]
    rfl
  stores := h.stores

theorem read_lt (h : t.Holds n w (c :: a)) : t.read < n := by
  have hne : t.cells.drop t.read ≠ [] := h.ahead ▸ List.cons_ne_nil c a
  exact h.length ▸ not_le.mp fun hle => hne (List.drop_eq_nil_of_le hle)

/-- Where the cursor is that writes. -/
theorem write_eq (h : t.Holds n w (c :: a)) (hle : t.write ≤ t.read) : t.write = w.length := by
  have hlt := h.read_lt
  rw [← h.written, List.length_take, h.length]
  exact (Nat.min_eq_left (hle.trans hlt.le)).symm

/-- A value that is written where the cursor reads, or before it. -/
theorem store (h : t.Holds n w (c :: a)) (hle : t.write ≤ t.read) (v : α) :
    ∃ t', t.put v = some t' ∧ t'.read = t.read ∧ t'.write = t.write + 1 ∧
      t'.cells.length = n ∧ t'.cells.take t'.write = w ++ [v] ∧
      (∀ k, t.write < k → t'.cells.drop k = t.cells.drop k) ∧ ∀ x ∈ t'.stores, x.1 ≤ x.2 := by
  have hlt : t.write < t.cells.length := h.length ▸ hle.trans_lt h.read_lt
  refine ⟨_, if_pos hlt, rfl, rfl, ?_, ?_, fun k hk => ?_, fun x hx => ?_⟩
  · exact (List.length_set ..).trans h.length
  · show (t.cells.set t.write v).take (t.write + 1) = w ++ [v]
    rw [List.take_add_one, List.take_set_of_le le_rfl, h.written, List.getElem?_set_self hlt]
    rfl
  · exact List.drop_set_of_lt hk
  · rcases List.mem_append.mp hx with hx | hx
    · exact h.stores x hx
    · rw [List.mem_singleton.mp hx]
      exact hle

/-- A value that is written before what is still to be read. -/
theorem put (h : t.Holds n w (c :: a)) (hlt : t.write < t.read) (v : α) :
    ∃ t', t.put v = some t' ∧ t'.Holds n (w ++ [v]) (c :: a) ∧ t'.write ≤ t'.read := by
  obtain ⟨t', hput, hread, hwrite, hlen, htake, hdrop, hstores⟩ := h.store hlt.le v
  refine ⟨t', hput, ⟨hlen, htake, ?_, hstores⟩, ?_⟩
  · rw [hread, hdrop t.read hlt, h.ahead]
  · rw [hread, hwrite]
    exact hlt

/-- A value in exchange for one that is read. -/
theorem copy (h : t.Holds n w (c :: a)) (hle : t.write ≤ t.read) (v : α) :
    ∃ t', t.put v = some t' ∧ t'.next.Holds n (w ++ [v]) a ∧ t'.next.write ≤ t'.next.read := by
  obtain ⟨t', hput, hread, hwrite, hlen, htake, hdrop, hstores⟩ := h.store hle v
  refine ⟨t', hput, ⟨hlen, htake, ?_, hstores⟩, ?_⟩
  · show t'.cells.drop (t'.read + 1) = a
    rw [hread, hdrop _ (Nat.lt_succ_of_le hle)]
    exact h.next.ahead
  · show t'.write ≤ t'.read + 1
    rw [hread, hwrite]
    exact Nat.succ_le_succ hle

/-- The value that is read next, which stays there. -/
theorem close (h : t.Holds n w (c :: a)) (hle : t.write ≤ t.read) :
    ∃ t', t.put c = some t' ∧ t'.Holds n (w ++ [c]) (c :: a) := by
  rcases hle.lt_or_eq with hlt | heq
  · obtain ⟨t', hput, h', -⟩ := h.put hlt c
    exact ⟨t', hput, h'⟩
  · obtain ⟨t', hput, hread, hwrite, hlen, htake, -, hstores⟩ := h.store hle c
    refine ⟨t', hput, hlen, htake, ?_, hstores⟩
    have hcells : t'.cells = t.cells := by
      have hset : t.cells.set t.write c = t.cells := by
        have hpeek := h.peek
        rw [Rewrite.peek, ← heq] at hpeek
        obtain ⟨hlt, hget⟩ := List.getElem?_eq_some_iff.mp hpeek
        rw [← hget]
        exact List.set_getElem_self hlt
      have hlt : t.write < t.cells.length := h.length ▸ hle.trans_lt h.read_lt
      rw [Rewrite.put, if_pos hlt, Option.some.injEq] at hput
      rw [← hput]
      exact hset
    rw [hcells, hread]
    exact h.ahead

end Holds

end Rewrite

end Risu.Lib
