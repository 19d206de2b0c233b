import Risu.Lib.Process

/-!
# Processes that do the same

Two processes are related by `Relate Q` if they make the same system calls, whatever these return, and
end alike: with values in the relation `Q`, or abnormally for the same reason.  The states they carry
may differ.

* `Relate.bind`, `Relate.mono` — the rules for sequences and for weaker relations;
* `Relate.everywhere` — what the relation says of one of the two alone;
* `Relate.fileRun` — on one file they write the same, leave the same unread and end alike.
-/

namespace Risu.Lib.Process

variable {σ τ ε α β γ δ : Type}

def Relate (Q : α → β → Prop) : Process σ ε α → Process τ ε β → Prop
  | .ret a, .ret b => Q a b
  | .halt _ e, .halt _ e' => e = e'
  | .read _ n k, .read _ n' k' => n = n' ∧ ∀ bs, Relate Q (k bs) (k' bs)
  | .write _ bs k, .write _ bs' k' => bs = bs' ∧ ∀ n, Relate Q (k n) (k' n)
  | _, _ => False

theorem Relate.bind {Q : α → β → Prop} {R : γ → δ → Prop} {p : Process σ ε α} {q : Process τ ε β}
    {f : α → Process σ ε γ} {g : β → Process τ ε δ} (hp : Relate Q p q)
    (hf : ∀ a b, Q a b → Relate R (f a) (g b)) : Relate R (p >>= f) (q >>= g) := by
  induction p generalizing q with
  | ret a =>
    cases q with
    | ret b => exact hf a b hp
    | halt t e | read t n k | write t bs k => exact hp.elim
  | halt s e =>
    cases q with
    | halt t e' => exact hp
    | ret b | read t n k | write t bs k => exact hp.elim
  | read s n k ih =>
    cases q with
    | read t n' k' => exact ⟨hp.1, fun bs => ih bs (hp.2 bs)⟩
    | ret b | halt t e | write t bs k => exact hp.elim
  | write s bs k ih =>
    cases q with
    | write t bs' k' => exact ⟨hp.1, fun n => ih n (hp.2 n)⟩
    | ret b | halt t e | read t n k => exact hp.elim

theorem Relate.mono {Q R : α → β → Prop} {p : Process σ ε α} {q : Process τ ε β} (hp : Relate Q p q)
    (h : ∀ a b, Q a b → R a b) : Relate R p q := by
  induction p generalizing q with
  | ret a =>
    cases q with
    | ret b => exact h a b hp
    | halt t e | read t n k | write t bs k => exact hp.elim
  | halt s e =>
    cases q with
    | halt t e' => exact hp
    | ret b | read t n k | write t bs k => exact hp.elim
  | read s n k ih =>
    cases q with
    | read t n' k' => exact ⟨hp.1, fun bs => ih bs (hp.2 bs)⟩
    | ret b | halt t e | write t bs k => exact hp.elim
  | write s bs k ih =>
    cases q with
    | write t bs' k' => exact ⟨hp.1, fun n => ih n (hp.2 n)⟩
    | ret b | halt t e | read t n k => exact hp.elim

/-- What a process returns is related to something. -/
theorem Relate.everywhere {Q : α → β → Prop} {p : Process σ ε α} {q : Process τ ε β}
    (hp : Relate Q p q) : p.Everywhere (fun _ => True) fun a => ∃ b, Q a b := by
  induction p generalizing q with
  | ret a =>
    cases q with
    | ret b => exact ⟨b, hp⟩
    | halt t e | read t n k | write t bs k => exact hp.elim
  | halt s e => trivial
  | read s n k ih =>
    cases q with
    | read t n' k' => exact ⟨trivial, fun bs => ih bs (hp.2 bs)⟩
    | ret b | halt t e | write t bs k => exact hp.elim
  | write s bs k ih =>
    cases q with
    | write t bs' k' => exact ⟨trivial, fun n => ih n (hp.2 n)⟩
    | ret b | halt t e | read t n k => exact hp.elim

/-- Both processes have ended alike. -/
def Leaves (Q : α → β → Prop) (p : Process σ ε α) (q : Process τ ε β) : Prop :=
  (∃ a b, p = .ret a ∧ q = .ret b ∧ Q a b) ∨ ∃ s t e, p = .halt s e ∧ q = .halt t e

/-- **Related processes do the same on a file.** -/
theorem Relate.fileRun {Q : α → β → Prop} {p : Process σ ε α} {q : Process τ ε β}
    (hp : Relate Q p q) (inp : List Byte) :
    (fileRun p inp).out = (fileRun q inp).out ∧ (fileRun p inp).rest = (fileRun q inp).rest ∧
      Leaves Q (fileRun p inp).last (fileRun q inp).last := by
  induction p generalizing q inp with
  | ret a =>
    cases q with
    | ret b => exact ⟨rfl, rfl, .inl ⟨a, b, rfl, rfl, hp⟩⟩
    | halt t e | read t n k | write t bs k => exact hp.elim
  | halt s e =>
    cases q with
    | halt t e' =>
      cases hp
      exact ⟨rfl, rfl, .inr ⟨s, t, e, rfl, rfl⟩⟩
    | ret b | read t n k | write t bs k => exact hp.elim
  | read s n k ih =>
    cases q with
    | read t n' k' =>
      obtain ⟨rfl, hk⟩ := hp
      exact ih _ (hk _) _
    | ret b | halt t e | write t bs k => exact hp.elim
  | write s bs k ih =>
    cases q with
    | write t bs' k' =>
      obtain ⟨rfl, hk⟩ := hp
      obtain ⟨hout, hrest, hlast⟩ := ih _ (hk _) inp
      rw [fileRun_write, fileRun_write, hout]
      exact ⟨rfl, hrest, hlast⟩
    | ret b | halt t e | read t n k => exact hp.elim

end Risu.Lib.Process
