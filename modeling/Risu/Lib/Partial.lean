import Mathlib.Tactic.Common

/-!
# Partial step functions and programs

* `Visits` — a run of a machine, with the places it is at before its steps; runs follow each other
  (`Visits.trans`), and a run to a state without a step is the only one (`Visits.ends_unique`);
* `Both` — a triple for two partial programs at once: from related states both end, and they end in
  related states; `both_some`, `Both.bind` and `Both.conseq` are its rules.
-/

namespace Risu.Lib

/-! ### Runs and the places they visit -/

section visits

variable {σ π : Type} (step : σ → Option σ) (place : σ → π)

inductive Visits : σ → List π → σ → Prop where
  | refl (s : σ) : Visits s [] s
  | step {s t u : σ} {ps : List π} : step s = some t → Visits t ps u → Visits s (place s :: ps) u

variable {step place} {s t u : σ} {ps qs : List π}

theorem Visits.trans (hs : Visits step place s ps t) (ht : Visits step place t qs u) :
    Visits step place s (ps ++ qs) u := by
  induction hs with
  | refl s => exact ht
  | step hstep _ ih => exact .step hstep (ih ht)

theorem Visits.single (h : step s = some t) : Visits step place s [place s] t :=
  .step h (.refl t)

/-- Two runs from one state to states without a step are the same run. -/
theorem Visits.ends_unique (hs : Visits step place s ps t) (ht : step t = none)
    (hu : Visits step place s qs u) (hend : step u = none) : ps = qs ∧ t = u := by
  induction hs generalizing qs with
  | refl s =>
    cases hu with
    | refl => exact ⟨rfl, rfl⟩
    | step hstep _ =>
      rw [ht] at hstep
      cases hstep
  | @step s t' t ps hstep _ ih =>
    cases hu with
    | refl =>
      rw [hend] at hstep
      cases hstep
    | step hstep' hu =>
      rw [hstep] at hstep'
      cases hstep'
      obtain ⟨hps, htu⟩ := ih ht hu
      exact ⟨congrArg _ hps, htu⟩

end visits

/-! ### Two executions side by side -/

section both

variable {σ σ' τ τ' υ υ' : Type}

/-- From states related by `P`, both programs end, in states related by `Q`. -/
def Both (P : σ → σ' → Prop) (f : σ → Option τ) (f' : σ' → Option τ') (Q : τ → τ' → Prop) : Prop :=
  ∀ s s', P s s' → ∃ t t', f s = some t ∧ f' s' = some t' ∧ Q t t'

variable {P : σ → σ' → Prop} {Q : τ → τ' → Prop} {R : υ → υ' → Prop}
  {f : σ → Option τ} {f' : σ' → Option τ'} {g : τ → Option υ} {g' : τ' → Option υ'}

/-- Programs that always end. -/
theorem both_some {f : σ → τ} {f' : σ' → τ'} (h : ∀ s s', P s s' → Q (f s) (f' s')) :
    Both P (fun s => some (f s)) (fun s => some (f' s)) Q :=
  fun s s' hP => ⟨f s, f' s', rfl, rfl, h s s' hP⟩

theorem Both.bind (hf : Both P f f' Q) (hg : Both Q g g' R) :
    Both P (fun s => (f s).bind g) (fun s => (f' s).bind g') R := by
  intro s s' hP
  obtain ⟨t, t', hs, hs', hQ⟩ := hf s s' hP
  obtain ⟨u, u', ht, ht', hR⟩ := hg t t' hQ
  exact ⟨u, u', Option.bind_eq_some_iff.mpr ⟨t, hs, ht⟩, Option.bind_eq_some_iff.mpr ⟨t', hs', ht'⟩, hR⟩

theorem Both.conseq {P' : σ → σ' → Prop} {Q' : τ → τ' → Prop} (h : Both P f f' Q)
    (hP : ∀ s s', P' s s' → P s s') (hQ : ∀ t t', Q t t' → Q' t t') : Both P' f f' Q' := by
  intro s s' hs
  obtain ⟨t, t', ht, ht', h⟩ := h s s' (hP s s' hs)
  exact ⟨t, t', ht, ht', hQ t t' h⟩

end both

end Risu.Lib
