import Mathlib.Order.Basic

/-!
# Scans that may stop

A scan runs a state through a list of steps, each of which returns the next state or stops, in the
monad `Except ε`.

* `bind_eq_ok` — a sequence succeeds when both parts do; `bind_eq_error`, `foldlM_eq_error` — where
  one that stops has stopped;
* `foldlM_ok` — steps that change nothing;
* `foldlM_sim` — two scans side by side: if every step of the first that succeeds is matched by the
  second, the second scan succeeds whenever the first does.  The relation may depend on the
  elements still to come;
* `foldlM_visits` — a scan that succeeds has taken a step at each element, from a state that
  satisfies the invariant at that point;
* `foldlM_isOk_iff`, `foldlM_eq_error_iff` — where the invariant decides which steps succeed and which
  stop, whether the scan succeeds and where it stops.
-/

namespace Risu.Lib

variable {ε δ σ τ ι : Type}

theorem bind_eq_ok {x : Except ε σ} {f : σ → Except ε τ} {r : τ} :
    (x >>= f) = .ok r ↔ ∃ a, x = .ok a ∧ f a = .ok r := by
  cases x with
  | error e => simp [bind, Except.bind]
  | ok a => simp [bind, Except.bind]

theorem bind_eq_error {x : Except ε σ} {f : σ → Except ε τ} {e : ε} :
    (x >>= f) = .error e ↔ x = .error e ∨ ∃ a, x = .ok a ∧ f a = .error e := by
  cases x with
  | error e => simp [bind, Except.bind]
  | ok a => simp [bind, Except.bind]

theorem foldlM_ok {f : σ → ι → Except ε σ} {s : σ} (h : ∀ i, f s i = .ok s) (L : List ι) :
    L.foldlM f s = .ok s := by
  induction L with
  | nil => rfl
  | cons i L ih => simp only [List.foldlM_cons, h i, bind, Except.bind, ih]

theorem foldlM_eq_error {f : σ → ι → Except ε σ} {L : List ι} {s : σ} {e : ε}
    (h : L.foldlM f s = .error e) : ∃ i ∈ L, ∃ t, f t i = .error e := by
  induction L generalizing s with
  | nil => simp [pure, Except.pure] at h
  | cons i L ih =>
    rw [List.foldlM_cons] at h
    rcases bind_eq_error.mp h with hi | ⟨t, -, hrest⟩
    · exact ⟨i, List.mem_cons_self, s, hi⟩
    · obtain ⟨j, hj, hstep⟩ := ih hrest
      exact ⟨j, List.mem_cons_of_mem i hj, hstep⟩

theorem foldlM_sim {f : σ → ι → Except ε σ} {g : τ → ι → Except δ τ}
    {R : List ι → σ → τ → Prop}
    (hstep : ∀ i L s t s', R (i :: L) s t → f s i = .ok s' → ∃ t', g t i = .ok t' ∧ R L s' t')
    {L : List ι} {s s' : σ} {t : τ} (hR : R L s t) (hf : L.foldlM f s = .ok s') :
    ∃ t', L.foldlM g t = .ok t' ∧ R [] s' t' := by
  induction L generalizing s t with
  | nil =>
    obtain rfl : s = s' := by simpa [pure, Except.pure] using hf
    exact ⟨t, rfl, hR⟩
  | cons i L ih =>
    rw [List.foldlM_cons] at hf
    obtain ⟨s₁, h₁, h₂⟩ := bind_eq_ok.mp hf
    obtain ⟨t₁, hg, hR₁⟩ := hstep i L s t s₁ hR h₁
    obtain ⟨t', ht', hR'⟩ := ih hR₁ h₂
    exact ⟨t', by rw [List.foldlM_cons]; exact bind_eq_ok.mpr ⟨t₁, hg, ht'⟩, hR'⟩

theorem foldlM_visits {f : σ → ι → Except ε σ} {I : List ι → σ → Prop}
    (hstep : ∀ i L s s', I (i :: L) s → f s i = .ok s' → I L s')
    {L : List ι} {s s' : σ} (hI : I L s) (hf : L.foldlM f s = .ok s') :
    I [] s' ∧ ∀ i ∈ L, ∃ L' t t', I (i :: L') t ∧ f t i = .ok t' := by
  induction L generalizing s with
  | nil =>
    obtain rfl : s = s' := by simpa [pure, Except.pure] using hf
    exact ⟨hI, by simp⟩
  | cons i L ih =>
    rw [List.foldlM_cons] at hf
    obtain ⟨s₁, h₁, h₂⟩ := bind_eq_ok.mp hf
    obtain ⟨hend, hall⟩ := ih (hstep i L s s₁ hI h₁) h₂
    refine ⟨hend, ?_⟩
    intro j hj
    rcases List.mem_cons.mp hj with rfl | hj
    · exact ⟨L, s, s₁, hI, h₁⟩
    · exact hall j hj

section decided

variable {f : σ → ι → Except ε σ} {I : List ι → σ → Prop} {P E : ι → Prop} {e : ε}

theorem foldlM_isOk_iff (hstep : ∀ i L s s', I (i :: L) s → f s i = .ok s' → I L s')
    (hok : ∀ i L s, I (i :: L) s → ((∃ s', f s i = .ok s') ↔ P i))
    {L : List ι} {s : σ} (hI : I L s) : (∃ s', L.foldlM f s = .ok s') ↔ ∀ i ∈ L, P i := by
  induction L generalizing s with
  | nil => simp [pure, Except.pure]
  | cons i L ih =>
    rw [List.forall_mem_cons, ← hok i L s hI]
    constructor
    · rintro ⟨s', hs'⟩
      rw [List.foldlM_cons] at hs'
      obtain ⟨t, ht, hrest⟩ := bind_eq_ok.mp hs'
      exact ⟨⟨t, ht⟩, (ih (hstep i L s t hI ht)).mp ⟨s', hrest⟩⟩
    · rintro ⟨⟨t, ht⟩, hall⟩
      obtain ⟨s', hrest⟩ := (ih (hstep i L s t hI ht)).mpr hall
      exact ⟨s', by rw [List.foldlM_cons]; exact bind_eq_ok.mpr ⟨t, ht, hrest⟩⟩

/-- The scan of an increasing list stops at the first element that does not let it pass. -/
theorem foldlM_eq_error_iff [Preorder ι]
    (hstep : ∀ i L s s', I (i :: L) s → f s i = .ok s' → I L s')
    (hok : ∀ i L s, I (i :: L) s → ((∃ s', f s i = .ok s') ↔ P i))
    (herr : ∀ i L s, I (i :: L) s → (f s i = .error e ↔ E i))
    {L : List ι} {s : σ} (hI : I L s) (hL : L.Pairwise (· < ·)) :
    L.foldlM f s = .error e ↔ ∃ i ∈ L, (∀ j ∈ L, j < i → P j) ∧ E i := by
  induction L generalizing s with
  | nil => simp [pure, Except.pure]
  | cons i L ih =>
    obtain ⟨hi, hL⟩ := List.pairwise_cons.mp hL
    rw [List.foldlM_cons, bind_eq_error, herr i L s hI]
    constructor
    · rintro (hE | ⟨t, ht, hrest⟩)
      · refine ⟨i, List.mem_cons_self, fun j hj hji => ?_, hE⟩
        rcases List.mem_cons.mp hj with rfl | hj
        · exact absurd hji (lt_irrefl j)
        · exact absurd (hji.trans (hi j hj)) (lt_irrefl j)
      · obtain ⟨k, hk, hpass, hE⟩ := (ih (hstep i L s t hI ht) hL).mp hrest
        refine ⟨k, List.mem_cons_of_mem i hk, fun j hj hjk => ?_, hE⟩
        rcases List.mem_cons.mp hj with rfl | hj
        · exact (hok j L s hI).mp ⟨t, ht⟩
        · exact hpass j hj hjk
    · rintro ⟨k, hk, hpass, hE⟩
      rcases List.mem_cons.mp hk with rfl | hk
      · exact .inl hE
      · obtain ⟨t, ht⟩ := (hok i L s hI).mpr (hpass i List.mem_cons_self (hi k hk))
        have hrest := (ih (hstep i L s t hI ht) hL).mpr
          ⟨k, hk, fun j hj => hpass j (List.mem_cons_of_mem i hj), hE⟩
        exact .inr ⟨t, ht, hrest⟩

end decided

end Risu.Lib
