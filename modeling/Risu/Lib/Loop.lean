import Mathlib.Data.Nat.Notation

/-!
# Loops and how they end

A loop is a step function: one round of its body goes on in another state or is done with a result.
`EndsAs step s r` says that finitely many rounds lead from the state `s` to the result `r`.

* `endsAs_done`, `endsAs_going` — one round;
* `not_endsAs_stuck` — a round that changes nothing is repeated forever;
* `Leads` — rounds that lead from one state to another.
-/

namespace Risu.Lib

variable {σ ρ : Type}

inductive Progress (σ ρ : Type) where
  | going (s : σ)
  | done (r : ρ)

/-- At most the given number of rounds. -/
def rounds (step : σ → Progress σ ρ) : ℕ → σ → Progress σ ρ
  | 0, s => .going s
  | k + 1, s =>
    match step s with
    | .going s' => rounds step k s'
    | .done r => .done r

def EndsAs (step : σ → Progress σ ρ) (s : σ) (r : ρ) : Prop := ∃ k, rounds step k s = .done r

variable {step : σ → Progress σ ρ} {s s' : σ} {r r' : ρ}

theorem endsAs_done (h : step s = .done r) : EndsAs step s r' ↔ r = r' := by
  refine ⟨?_, ?_⟩
  · intro hends
    obtain ⟨k, hk⟩ := hends
    cases k with
    | zero => cases hk
    | succ k =>
      rw [rounds, h] at hk
      cases hk
      rfl
  · intro heq
    refine ⟨1, ?_⟩
    rw [rounds, h, heq]

theorem endsAs_going (h : step s = .going s') : EndsAs step s r ↔ EndsAs step s' r := by
  refine ⟨?_, ?_⟩
  · intro hends
    obtain ⟨k, hk⟩ := hends
    cases k with
    | zero => cases hk
    | succ k =>
      rw [rounds, h] at hk
      exact ⟨k, hk⟩
  · intro hends
    obtain ⟨k, hk⟩ := hends
    refine ⟨k + 1, ?_⟩
    rw [rounds, h]
    exact hk

/-- Two states with the same round end alike. -/
theorem endsAs_congr (h : step s = step s') : EndsAs step s r ↔ EndsAs step s' r := by
  cases hs : step s' with
  | going t => rw [endsAs_going (h.trans hs), endsAs_going hs]
  | done t => rw [endsAs_done (h.trans hs), endsAs_done hs]

theorem rounds_stuck (h : step s = .going s) (k : ℕ) : rounds step k s = .going s := by
  induction k with
  | zero => rfl
  | succ k ih =>
    rw [rounds, h]
    exact ih

/-- A round that changes nothing is repeated forever. -/
theorem not_endsAs_stuck (h : step s = .going s) : ¬ EndsAs step s r := by
  intro hends
  obtain ⟨k, hk⟩ := hends
  rw [rounds_stuck h] at hk
  cases hk

/-! ### Rounds on the way -/

/-- What the loop ends as, it ends as from the second state. -/
def Leads (step : σ → Progress σ ρ) (s s' : σ) : Prop := ∀ r, EndsAs step s r ↔ EndsAs step s' r

theorem Leads.refl (s : σ) : Leads step s s := fun _ => Iff.rfl

theorem Leads.trans {s'' : σ} (h : Leads step s s') (h' : Leads step s' s'') : Leads step s s'' :=
  fun r => (h r).trans (h' r)

theorem Leads.going {s'' : σ} (h : step s = .going s') (h' : Leads step s' s'') : Leads step s s'' :=
  fun r => (endsAs_going h).trans (h' r)

end Risu.Lib
