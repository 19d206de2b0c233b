import Risu.Lib.Process

/-!
# Reading from a pipe

A read from a pipe may return fewer bytes than it asks for, although more are to come.  `Cuts` says
how many bytes are there at each read, at least one.

* `pipeRun` runs a process whose input is a pipe;
* `Uncut p inp c` — along the run every read gets all it asks for, or all there is: the run is then
  the run on a file (`Uncut.pipeRun_eq`);
* `Brittle Q p` — a read that gets less than it asked for makes the process return a value in `Q`.
-/

namespace Risu.Lib

variable {σ ε α β : Type}

/-- The most bytes each read from a pipe can get. -/
structure Cuts where
  size : ℕ → ℕ
  pos : ∀ i, 0 < size i

/-- The sizes that are left after the first read. -/
def Cuts.tail (c : Cuts) : Cuts := ⟨fun i => c.size (i + 1), fun i => c.pos (i + 1)⟩

/-- The same size at each read. -/
def Cuts.const (n : ℕ) (h : 0 < n) : Cuts := ⟨fun _ => n, fun _ => h⟩

namespace Process

/-- What is left after running a process against a pipe. -/
structure PipeRun (σ ε α : Type) where
  rest : List Byte
  cuts : Cuts
  last : Process σ ε α

def pipeRun : Process σ ε α → List Byte → Cuts → PipeRun σ ε α
  | .ret a, inp, c => ⟨inp, c, .ret a⟩
  | .halt s e, inp, c => ⟨inp, c, .halt s e⟩
  | .read _ n k, inp, c =>
    let got := inp.take (min n (c.size 0))
    pipeRun (k got) (inp.drop got.length) c.tail
  | .write _ bs k, inp, c => pipeRun (k bs.length) inp c

/-- A run of `p >>= f` is the run of `p` followed by that of `f`. -/
theorem pipeRun_bind {p : Process σ ε α} {f : α → Process σ ε β} {inp : List Byte} {c : Cuts} {a : α}
    (h : (pipeRun p inp c).last = .ret a) :
    pipeRun (p >>= f) inp c = pipeRun (f a) (pipeRun p inp c).rest (pipeRun p inp c).cuts := by
  induction p generalizing inp c with
  | ret b =>
    cases h
    rfl
  | halt s e => cases h
  | read s n k ih => exact ih _ h
  | write s bs k ih => exact ih _ h

/-- An abnormal end is the end of what follows, too. -/
theorem pipeRun_bind_halt {p : Process σ ε α} {f : α → Process σ ε β} {inp : List Byte} {c : Cuts}
    {s : σ} {e : ε} (h : (pipeRun p inp c).last = .halt s e) :
    (pipeRun (p >>= f) inp c).last = .halt s e := by
  induction p generalizing inp c with
  | ret b => cases h
  | halt s e =>
    cases h
    rfl
  | read s n k ih => exact ih _ h
  | write s bs k ih => exact ih _ h

/-! ### Whole reads -/

def Uncut : Process σ ε α → List Byte → Cuts → Prop
  | .ret _, _, _ => True
  | .halt _ _, _, _ => True
  | .read _ n k, inp, c =>
    min n inp.length ≤ c.size 0 ∧ (k (inp.take n)).Uncut (inp.drop n) c.tail
  | .write _ bs k, inp, c => (k bs.length).Uncut inp c

/-- A read that is not cut gets what it gets from a file. -/
theorem take_uncut {n m : ℕ} {inp : List Byte} (h : min n inp.length ≤ m) :
    inp.take (min n m) = inp.take n ∧ inp.drop (inp.take (min n m)).length = inp.drop n := by
  have htake : inp.take (min n m) = inp.take n := by
    rw [List.take_eq_take_iff]
    omega
  refine ⟨htake, ?_⟩
  rw [htake, List.length_take]
  by_cases hle : n ≤ inp.length
  · rw [Nat.min_eq_left hle]
  · rw [List.drop_eq_nil_of_le (by omega), List.drop_eq_nil_of_le (by omega)]

/-- **Without a cut a pipe is a file.** -/
theorem Uncut.pipeRun_eq {p : Process σ ε α} {inp : List Byte} {c : Cuts} (h : p.Uncut inp c) :
    (pipeRun p inp c).rest = (fileRun p inp).rest ∧
      (pipeRun p inp c).last = (fileRun p inp).last := by
  induction p generalizing inp c with
  | ret a => exact ⟨rfl, rfl⟩
  | halt s e => exact ⟨rfl, rfl⟩
  | read s n k ih =>
    obtain ⟨htake, hdrop⟩ := take_uncut h.1
    rw [pipeRun, fileRun_read, hdrop, htake]
    exact ih _ h.2
  | write s bs k ih => exact ih _ h

/-! ### Cut reads -/

def Brittle (Q : α → Prop) : Process σ ε α → Prop
  | .ret _ => True
  | .halt _ _ => True
  | .read _ n k =>
    (∀ got : List Byte, got.length < n → ∃ a, k got = .ret a ∧ Q a) ∧ ∀ got, (k got).Brittle Q
  | .write _ _ k => ∀ n, (k n).Brittle Q

theorem Brittle.bind {Q : α → Prop} {R : β → Prop} {p : Process σ ε α} {f : α → Process σ ε β}
    (hp : p.Brittle Q) (hcut : ∀ a, Q a → ∃ b, f a = .ret b ∧ R b) (hf : ∀ a, (f a).Brittle R) :
    (p >>= f).Brittle R := by
  induction p with
  | ret a => exact hf a
  | halt s e => trivial
  | read s n k ih =>
    refine ⟨?_, fun got => ih got (hp.2 got)⟩
    intro got hgot
    obtain ⟨a, hk, ha⟩ := hp.1 got hgot
    obtain ⟨b, hb, hR⟩ := hcut a ha
    refine ⟨b, ?_, hR⟩
    show (k got >>= f) = .ret b
    rw [hk, ret_bind, hb]
  | write s bs k ih => exact fun n => ih n (hp n)

/-- **A cut breaks a brittle process.** -/
theorem Brittle.of_cut {Q : α → Prop} {p : Process σ ε α} (hp : p.Brittle Q) {inp : List Byte}
    {c : Cuts} (h : ¬ p.Uncut inp c) : ∃ a, (pipeRun p inp c).last = .ret a ∧ Q a := by
  induction p generalizing inp c with
  | ret a => exact absurd trivial h
  | halt s e => exact absurd trivial h
  | read s n k ih =>
    by_cases hcut : min n inp.length ≤ c.size 0
    · obtain ⟨htake, hdrop⟩ := take_uncut hcut
      rw [pipeRun, hdrop, htake]
      exact ih _ (hp.2 _) fun hrest => h ⟨hcut, hrest⟩
    · obtain ⟨a, hk, ha⟩ := hp.1 (inp.take (min n (c.size 0))) (by rw [List.length_take]; omega)
      refine ⟨a, ?_, ha⟩
      rw [pipeRun, hk]
      rfl
  | write s bs k ih => exact ih _ (hp _) h

/-! ### Runs on a file -/

theorem fileRun_bind_ret {p : Process σ ε α} {f : α → Process σ ε β} {inp : List Byte} {a : α}
    (h : (fileRun p inp).last = .ret a) :
    (fileRun (p >>= f) inp).last = (fileRun (f a) (fileRun p inp).rest).last := by
  have hrun : fileRun p inp = ⟨(fileRun p inp).out, (fileRun p inp).rest, .ret a⟩ := by
    rw [← h]
  exact fileRun_bind_last hrun

theorem fileRun_bind_halt {p : Process σ ε α} {f : α → Process σ ε β} {inp : List Byte} {s : σ}
    {e : ε} (h : (fileRun p inp).last = .halt s e) : (fileRun (p >>= f) inp).last = .halt s e := by
  induction p generalizing inp with
  | ret b => cases h
  | halt s e =>
    cases h
    rfl
  | read s n k ih => exact ih _ h
  | write s bs k ih => exact ih _ h

/-- A process ends a run on a file with a value or abnormally. -/
theorem fileRun_last_cases (p : Process σ ε α) (inp : List Byte) :
    (∃ a, (fileRun p inp).last = .ret a) ∨ ∃ s e, (fileRun p inp).last = .halt s e := by
  induction p generalizing inp with
  | ret a => exact .inl ⟨a, rfl⟩
  | halt s e => exact .inr ⟨s, e, rfl⟩
  | read s n k ih => exact ih _ _
  | write s bs k ih => exact ih _ _

/-- What holds everywhere holds where a run on a file ends. -/
theorem Everywhere.fileRun_last {P : σ → Prop} {Q : α → Prop} {p : Process σ ε α}
    (hp : p.Everywhere P Q) (inp : List Byte) : (fileRun p inp).last.Everywhere P Q := by
  induction p generalizing inp with
  | ret a => exact hp
  | halt s e => exact hp
  | read s n k ih => exact ih _ (hp.2 _) _
  | write s bs k ih => exact ih _ (hp.2 _) _

end Process

end Risu.Lib
