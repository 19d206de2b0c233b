import Risu.Lib.ByteOrder

/-!
# Sequential processes over byte streams

`Process σ ε α` is a program that reads and writes bytes: a finite tree whose nodes are the system
calls, each stamped with the process state `σ` visible while the call is pending, whose leaves are
a returned value (`ret`) or an abnormal end (`halt`, for a reason in `ε`).

* `read s n k` asks for at most `n` bytes and continues with the bytes it got; the empty list is
  end of file;
* `write s bs k` hands over `bs` and continues with the number of bytes accepted;
* `Process` is a monad, so that code is written in `do` notation;
* `Everywhere P Q` is an invariant at every call together with a postcondition, with a rule for
  sequences (`Everywhere.bind`);
* `Asks B` bounds what every read asks for;
* `fileRun` runs a process whose input is a file: every read gets all it asked for as long as the
  file lasts, every write is accepted whole.
-/

namespace Risu.Lib

variable {σ ε α β γ : Type}

inductive Process (σ ε α : Type) where
  | ret (a : α)
  | halt (s : σ) (e : ε)
  | read (s : σ) (n : ℕ) (k : List Byte → Process σ ε α)
  | write (s : σ) (bs : List Byte) (k : ℕ → Process σ ε α)

namespace Process

def bind : Process σ ε α → (α → Process σ ε β) → Process σ ε β
  | .ret a, f => f a
  | .halt s e, _ => .halt s e
  | .read s n k, f => .read s n (fun bs => (k bs).bind f)
  | .write s bs k, f => .write s bs (fun n => (k n).bind f)

instance : Monad (Process σ ε) where
  pure := .ret
  bind := Process.bind

@[simp] theorem pure_eq (a : α) : (pure a : Process σ ε α) = .ret a := rfl

@[simp] theorem ret_bind (a : α) (f : α → Process σ ε β) : (.ret a >>= f) = f a := rfl

@[simp] theorem halt_bind (s : σ) (e : ε) (f : α → Process σ ε β) :
    (.halt s e >>= f) = .halt s e := rfl

@[simp] theorem read_bind (s : σ) (n : ℕ) (k : List Byte → Process σ ε α) (f : α → Process σ ε β) :
    (.read s n k >>= f) = .read s n (fun bs => k bs >>= f) := rfl

@[simp] theorem write_bind (s : σ) (bs : List Byte) (k : ℕ → Process σ ε α)
    (f : α → Process σ ε β) : (.write s bs k >>= f) = .write s bs (fun n => k n >>= f) := rfl

@[simp] theorem bind_assoc (p : Process σ ε α) (f : α → Process σ ε β) (g : β → Process σ ε γ) :
    (p >>= f >>= g) = p >>= fun a => f a >>= g := by
  induction p with
  | ret a => rfl
  | halt s e => rfl
  | read s n k ih => simp only [read_bind, ih]
  | write s bs k ih => simp only [write_bind, ih]

/-! ### Where a process stands -/

/-- The process has ended, normally or not. -/
def Done : Process σ ε α → Prop
  | .ret _ => True
  | .halt _ _ => True
  | _ => False

/-- The process has ended or waits for input: it has nothing to say on its own. -/
def Quiet : Process σ ε α → Prop
  | .write _ _ _ => False
  | _ => True

/-- The process has a read pending. -/
def Reading : Process σ ε α → Prop
  | .read _ _ _ => True
  | _ => False

@[simp] theorem done_halt (s : σ) (e : ε) : (halt s e : Process σ ε α).Done := trivial
@[simp] theorem not_done_read (s : σ) (n : ℕ) (k : List Byte → Process σ ε α) :
    ¬ (read s n k).Done := id
@[simp] theorem not_done_write (s : σ) (bs : List Byte) (k : ℕ → Process σ ε α) :
    ¬ (write s bs k).Done := id

theorem Done.quiet {p : Process σ ε α} (h : p.Done) : p.Quiet := by
  cases p with
  | ret a => trivial
  | halt s e => trivial
  | read s n k => trivial
  | write s bs k => exact absurd h (not_done_write s bs k)

theorem Done.not_reading {p : Process σ ε α} (h : p.Done) : ¬ p.Reading := by
  cases p with
  | ret a => exact id
  | halt s e => exact id
  | read s n k => exact absurd h (not_done_read s n k)
  | write s bs k => exact id

/-- The visible state of a process that returns a value together with its final state. -/
def view : Process σ ε (α × σ) → σ
  | .ret r => r.2
  | .halt s _ => s
  | .read s _ _ => s
  | .write s _ _ => s

/-! ### What holds at every call -/

/-- `P` holds of the state at every pending call and at every abnormal end, `Q` of every value
returned. -/
def Everywhere (P : σ → Prop) (Q : α → Prop) : Process σ ε α → Prop
  | .ret a => Q a
  | .halt s _ => P s
  | .read s _ k => P s ∧ ∀ bs, (k bs).Everywhere P Q
  | .write s _ k => P s ∧ ∀ n, (k n).Everywhere P Q

theorem Everywhere.bind {P : σ → Prop} {Q : α → Prop} {R : β → Prop} {p : Process σ ε α}
    {f : α → Process σ ε β} (hp : p.Everywhere P Q) (hf : ∀ a, Q a → (f a).Everywhere P R) :
    (p >>= f).Everywhere P R := by
  induction p with
  | ret a => exact hf a hp
  | halt s e => exact hp
  | read s n k ih => exact ⟨hp.1, fun bs => ih bs (hp.2 bs)⟩
  | write s bs k ih => exact ⟨hp.1, fun n => ih n (hp.2 n)⟩

theorem Everywhere.mono {P P' : σ → Prop} {Q Q' : α → Prop} {p : Process σ ε α}
    (hp : p.Everywhere P Q) (hP : ∀ s, P s → P' s) (hQ : ∀ a, Q a → Q' a) :
    p.Everywhere P' Q' := by
  induction p with
  | ret a => exact hQ a hp
  | halt s e => exact hP s hp
  | read s n k ih => exact ⟨hP s hp.1, fun bs => ih bs (hp.2 bs)⟩
  | write s bs k ih => exact ⟨hP s hp.1, fun n => ih n (hp.2 n)⟩

/-- Continuations that agree on what is returned may be exchanged. -/
theorem Everywhere.bind_congr {P : σ → Prop} {Q : α → Prop} {p : Process σ ε α}
    {f g : α → Process σ ε β} (hp : p.Everywhere P Q) (hfg : ∀ a, Q a → f a = g a) :
    p >>= f = p >>= g := by
  induction p with
  | ret a => exact hfg a hp
  | halt s e => rfl
  | read s n k ih =>
    rw [read_bind, read_bind]
    exact congrArg _ (funext fun bs => ih bs (hp.2 bs))
  | write s bs k ih =>
    rw [write_bind, write_bind]
    exact congrArg _ (funext fun n => ih n (hp.2 n))

theorem Everywhere.view {P : σ → Prop} {p : Process σ ε (α × σ)}
    (hp : p.Everywhere P fun r => P r.2) : P p.view := by
  cases p with
  | ret r => exact hp
  | halt s e => exact hp
  | read s n k => exact hp.1
  | write s bs k => exact hp.1

/-! ### What is asked for -/

/-- `B` holds between the state and the number of bytes asked for at every pending read. -/
def Asks (B : σ → ℕ → Prop) : Process σ ε α → Prop
  | .ret _ => True
  | .halt _ _ => True
  | .read s n k => B s n ∧ ∀ bs, (k bs).Asks B
  | .write _ _ k => ∀ n, (k n).Asks B

/-! ### Running against a file -/

/-- What is left after running a process against a file: the bytes it wrote, the input it did not
consume, and the leaf it ended at. -/
structure FileRun (σ ε α : Type) where
  out : List Byte
  rest : List Byte
  last : Process σ ε α

def fileRun : Process σ ε α → List Byte → FileRun σ ε α
  | .ret a, inp => ⟨[], inp, .ret a⟩
  | .halt s e, inp => ⟨[], inp, .halt s e⟩
  | .read _ n k, inp => fileRun (k (inp.take n)) (inp.drop n)
  | .write _ bs k, inp =>
    let r := fileRun (k bs.length) inp
    ⟨bs ++ r.out, r.rest, r.last⟩

@[simp] theorem fileRun_ret (a : α) (inp : List Byte) :
    fileRun (.ret a : Process σ ε α) inp = ⟨[], inp, .ret a⟩ := rfl

@[simp] theorem fileRun_halt (s : σ) (e : ε) (inp : List Byte) :
    fileRun (.halt s e : Process σ ε α) inp = ⟨[], inp, .halt s e⟩ := rfl

@[simp] theorem fileRun_read (s : σ) (n : ℕ) (k : List Byte → Process σ ε α) (inp : List Byte) :
    fileRun (.read s n k) inp = fileRun (k (inp.take n)) (inp.drop n) := rfl

@[simp] theorem fileRun_write (s : σ) (bs : List Byte) (k : ℕ → Process σ ε α)
    (inp : List Byte) :
    fileRun (.write s bs k) inp =
      ⟨bs ++ (fileRun (k bs.length) inp).out, (fileRun (k bs.length) inp).rest,
        (fileRun (k bs.length) inp).last⟩ := rfl

/-- A run of `p >>= f` is the run of `p` followed by that of `f` on what `p` left. -/
theorem fileRun_bind {p : Process σ ε α} {f : α → Process σ ε β} {inp out rest : List Byte} {a : α}
    (h : fileRun p inp = ⟨out, rest, .ret a⟩) :
    fileRun (p >>= f) inp =
      ⟨out ++ (fileRun (f a) rest).out, (fileRun (f a) rest).rest, (fileRun (f a) rest).last⟩ := by
  induction p generalizing inp out with
  | ret b =>
    cases h
    rfl
  | halt s e => cases h
  | read s n k ih =>
    rw [read_bind, fileRun_read]
    exact ih _ h
  | write s bs k ih =>
    rw [fileRun_write, FileRun.mk.injEq] at h
    obtain ⟨rfl, hrest, hlast⟩ := h
    have hrun : fileRun (k bs.length) inp = ⟨(fileRun (k bs.length) inp).out, rest, .ret a⟩ := by
      rw [← hrest, ← hlast]
    rw [write_bind, fileRun_write, ih _ hrun, List.append_assoc]

theorem fileRun_bind_last {p : Process σ ε α} {f : α → Process σ ε β} {inp out rest : List Byte}
    {a : α} (h : fileRun p inp = ⟨out, rest, .ret a⟩) :
    (fileRun (p >>= f) inp).last = (fileRun (f a) rest).last := by
  rw [fileRun_bind h]

end Process

end Risu.Lib
