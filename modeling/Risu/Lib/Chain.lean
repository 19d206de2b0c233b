import Mathlib.Data.List.Induction

/-!
# Chains of blocks

Blocks that stand one behind another, where the address of the next one depends on the block, and loops
that walk along them with a bound on their turns.

* `places`, `chainEnd` — the blocks with their addresses, and the address behind them;
* `Chained` — every block stands at its address;
* `walk_chained` — a loop that goes from each block to the next one goes along the chain;
* `foldl_ite_getLast` — what is assigned at some elements is left by the last of these.
-/

namespace Risu.Lib

variable {P B S R : Type}

/-- The blocks with their addresses. -/
def places (next : P → B → P) : P → List B → List (P × B)
  | _, [] => []
  | p, b :: bs => (p, b) :: places next (next p b) bs

/-- The address behind the blocks. -/
def chainEnd (next : P → B → P) (p : P) (bs : List B) : P := bs.foldl next p

/-- Every block stands at its address. -/
def Chained (stands : P → B → Prop) (next : P → B → P) (p : P) (bs : List B) : Prop :=
  ∀ x ∈ places next p bs, stands x.1 x.2

variable {stands stands' : P → B → Prop} {next : P → B → P} {p : P} {b : B} {bs cs : List B}

theorem places_append :
    places next p (bs ++ cs) = places next p bs ++ places next (chainEnd next p bs) cs := by
  induction bs generalizing p with
  | nil => rfl
  | cons b bs ih => exact congrArg (List.cons (p, b)) ih

theorem mem_of_mem_places {x : P × B} (h : x ∈ places next p bs) : x.2 ∈ bs := by
  induction bs generalizing p with
  | nil => cases h
  | cons b bs ih =>
    rcases List.mem_cons.mp h with rfl | h
    · exact List.mem_cons_self
    · exact List.mem_cons_of_mem b (ih h)

theorem map_snd_places : (places next p bs).map Prod.snd = bs := by
  induction bs generalizing p with
  | nil => rfl
  | cons b bs ih => exact congrArg (List.cons b) ih

/-- The first block of a kind, with the blocks before it. -/
theorem find_places_eq_some {kind : B → Bool} {q : P}
    (h : (places next p bs).find? (fun x => kind x.2) = some (q, b)) :
    ∃ before after, bs = before ++ b :: after ∧ q = chainEnd next p before ∧ kind b = true ∧
      ∀ c ∈ before, kind c = false := by
  induction bs generalizing p with
  | nil => cases h
  | cons c bs ih =>
    rw [places, List.find?_cons] at h
    cases hc : kind c with
    | true =>
      simp only [hc, Option.some.injEq, Prod.mk.injEq] at h
      obtain ⟨rfl, rfl⟩ := h
      exact ⟨[], bs, rfl, rfl, hc, by simp⟩
    | false =>
      simp only [hc] at h
      obtain ⟨before, after, rfl, hq, hb, hbefore⟩ := ih h
      refine ⟨c :: before, after, rfl, hq, hb, ?_⟩
      intro d hd
      rcases List.mem_cons.mp hd with rfl | hd
      · exact hc
      · exact hbefore d hd

theorem find_places_eq_none {kind : B → Bool} :
    (places next p bs).find? (fun x => kind x.2) = none ↔ ∀ c ∈ bs, kind c = false := by
  induction bs generalizing p with
  | nil => simp [places]
  | cons c bs ih =>
    rw [places, List.find?_cons, List.forall_mem_cons]
    cases hc : kind c with
    | true => simp
    | false => simpa using ih

theorem chained_nil : Chained stands next p [] := by simp [Chained, places]

theorem chained_cons :
    Chained stands next p (b :: bs) ↔ stands p b ∧ Chained stands next (next p b) bs := by
  simp [Chained, places]

theorem chained_append :
    Chained stands next p (bs ++ cs) ↔
      Chained stands next p bs ∧ Chained stands next (chainEnd next p bs) cs := by
  simp only [Chained, places_append, List.mem_append, or_imp, forall_and]

theorem Chained.mono (h : Chained stands next p bs)
    (himp : ∀ x ∈ places next p bs, stands x.1 x.2 → stands' x.1 x.2) : Chained stands' next p bs :=
  fun x hx => himp x hx (h x hx)

/-- **A loop that goes from each block to the next one goes along the chain.** -/
theorem walk_chained (walk : ℕ → P → S → R) (visit : S → P × B → S)
    (hstep : ∀ p b s n, stands p b → walk (n + 1) p s = walk n (next p b) (visit s (p, b)))
    (h : Chained stands next p bs) (n : ℕ) (s : S) :
    walk (bs.length + n) p s = walk n (chainEnd next p bs) ((places next p bs).foldl visit s) := by
  induction bs generalizing p s with
  | nil => rw [List.length_nil, Nat.zero_add]; rfl
  | cons b bs ih =>
    rw [chained_cons] at h
    rw [List.length_cons, Nat.add_right_comm, hstep p b s _ h.1, ih h.2]
    rfl

/-- What is assigned at some elements is left by the last of these. -/
theorem foldl_ite_getLast {α β : Type} (k : α → Bool) (g : α → β) (xs : List α) (s : β) :
    xs.foldl (fun s x => if k x then g x else s) s = ((xs.filter k).getLast?.map g).getD s := by
  induction xs using List.reverseRecOn with
  | nil => rfl
  | append_singleton xs x ih =>
    rw [List.foldl_append, List.foldl_cons, List.foldl_nil, ih, List.filter_append]
    by_cases hx : k x = true
    · rw [if_pos hx, List.filter_cons_of_pos hx, List.filter_nil, List.getLast?_append]
      rfl
    · rw [if_neg hx, List.filter_cons_of_neg hx, List.filter_nil, List.append_nil]

end Risu.Lib
