import Mathlib.Data.List.Induction
import Mathlib.Data.Nat.Notation

/-!
# Segments of a list exchanged in place

Two cursors that walk towards each other and exchange what they stand on reverse the segment between
them.  Three such walks exchange two segments that lie side by side.

* `swapAt`, `reverseBetween` — one exchange, and the walk;
* `reverseBetween_segment` — the walk reverses a segment;
* `exchangeSegments`, `exchangeSegments_eq` — three walks exchange two segments.
-/

namespace Risu.Lib

variable {α : Type}

/-- The values at two places are exchanged. -/
def swapAt (l : List α) (i j : ℕ) : List α :=
  match l[i]?, l[j]? with
  | some a, some b => (l.set i b).set j a
  | _, _ => l

/-- The walk from both ends of a segment. -/
def reverseBetween (l : List α) (first last : ℕ) : List α :=
  if first < last then reverseBetween (swapAt l first last) (first + 1) (last - 1) else l
termination_by last - first

/-- The segment from `first` to `mid` and the one from `mid` to `last`. -/
def exchangeSegments (l : List α) (first mid last : ℕ) : List α :=
  let l := reverseBetween l first (last - 1)
  let l := reverseBetween l first (first + (last - mid) - 1)
  reverseBetween l (first + (last - mid)) (last - 1)

theorem swapAt_append (p m q : List α) (a b : α) :
    swapAt (p ++ a :: (m ++ b :: q)) p.length (p.length + (m.length + 1)) =
      p ++ b :: (m ++ a :: q) := by
  have hi : (p ++ a :: (m ++ b :: q))[p.length]? = some a := by simp
  have hj : (p ++ a :: (m ++ b :: q))[p.length + (m.length + 1)]? = some b := by
    rw [List.getElem?_append_right (Nat.le_add_right _ _), Nat.add_sub_cancel_left,
      List.getElem?_cons_succ]
    simp
  unfold swapAt
  rw [hi, hj]
  show ((p ++ a :: (m ++ b :: q)).set p.length b).set (p.length + (m.length + 1)) a = _
  rw [List.set_append_right _ _ (Nat.le_refl _), Nat.sub_self, List.set_cons_zero,
    List.set_append_right _ _ (Nat.le_add_right _ _), Nat.add_sub_cancel_left, List.set_cons_succ,
    List.set_append_right _ _ (Nat.le_refl _), Nat.sub_self, List.set_cons_zero]

/-- **The walk reverses the segment between its ends.** -/
theorem reverseBetween_segment (m p q : List α) :
    reverseBetween (p ++ (m ++ q)) p.length (p.length + m.length - 1) =
      p ++ (m.reverse ++ q) := by
  induction m using List.bidirectionalRec generalizing p q with
  | nil =>
    rw [reverseBetween, if_neg (by simp)]
    rfl
  | singleton a =>
    rw [reverseBetween, if_neg (by simp)]
    rfl
  | cons_append a m b ih =>
    have hlast : p.length + (a :: (m ++ [b])).length - 1 = p.length + (m.length + 1) := by
      simp only [List.length_cons, List.length_append, List.length_nil]
      omega
    have hlist : p ++ (a :: (m ++ [b]) ++ q) = p ++ a :: (m ++ b :: q) := by simp
    have hinner := ih (p ++ [b]) (a :: q)
    have hfrom : (p ++ [b]).length = p.length + 1 := by simp
    have hto : (p ++ [b]).length + m.length - 1 = p.length + (m.length + 1) - 1 := by
      rw [hfrom]
      omega
    rw [hto, hfrom] at hinner
    rw [hlast, hlist, reverseBetween, if_pos (by omega), swapAt_append]
    simpa using hinner

/-- **Two segments that lie side by side change places.** -/
theorem exchangeSegments_eq (p x y q : List α) :
    exchangeSegments (p ++ (x ++ (y ++ q))) p.length (p.length + x.length)
        (p.length + x.length + y.length) =
      p ++ (y ++ (x ++ q)) := by
  have hall := reverseBetween_segment (x ++ y) p q
  have hy := reverseBetween_segment y.reverse p (x.reverse ++ q)
  have hx := reverseBetween_segment x.reverse (p ++ y) q
  have hmid : p.length + x.length + y.length - (p.length + x.length) = y.length := by omega
  rw [List.length_append, ← Nat.add_assoc, List.append_assoc, List.reverse_append,
    List.append_assoc] at hall
  rw [List.length_reverse, List.reverse_reverse] at hy
  rw [List.length_reverse, List.reverse_reverse, List.length_append, List.append_assoc,
    List.append_assoc] at hx
  have hend : p.length + y.length + x.length = p.length + x.length + y.length := by omega
  rw [hend] at hx
  unfold exchangeSegments
  simp only [hmid]
  rw [hall, hy, hx]

end Risu.Lib
