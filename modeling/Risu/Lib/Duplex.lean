import Mathlib.Data.List.Induction
import Risu.Lib.Process

/-!
# Two processes joined by a pair of byte channels

A `Duplex` is a left and a right process with one first-in first-out byte channel each way.
Writes are taken whole; a read gets any non-empty chunk of what is in its channel, up to the number
of bytes it asked for; the two sides interleave freely (`Step`, `Run`).

The library treats the request/response discipline: the left process writes a request and waits
for one byte, the right process consumes a request exactly and then writes one byte.

* `Eats P p bs q` — however `bs` is cut into chunks, `p` reads exactly `bs` and arrives at `q`,
  and `P` holds of every process passed on the way;
* `Settles Q l r lf rf` — run in lock-step, `l` and `r` come to rest at `lf` and `rf`, with `Q` at
  every intermediate point;
* `Settles.phase` — every interleaved run of such a pair stays within the phases of that
  lock-step run, and its history obeys the automaton `Turn.next`;
* `Phase.here`, `Phase.not_deadlocked`, `Phase.final`, `Settles.stops` — what follows for every run:
  `Q` in each state, no state with both sides starved, a unique end, termination;
* `Client`, `Server`, `Client.lockStep` — a requester and a responder without a fixed partner, and
  what holds of all their runs.
-/

namespace Risu.Lib

open Process

variable {σ τ ε α β : Type}

/-! ### The system and its steps -/

structure Duplex (σ τ ε α β : Type) where
  left : Process σ ε α
  right : Process τ ε β
  toRight : List Byte
  toLeft : List Byte

/-- Two processes before anything was said. -/
def Duplex.start (l : Process σ ε α) (r : Process τ ε β) : Duplex σ τ ε α β := ⟨l, r, [], []⟩

inductive Act where
  | leftWrites (bs : List Byte)
  | leftReads (bs : List Byte)
  | rightWrites (bs : List Byte)
  | rightReads (bs : List Byte)
  deriving DecidableEq

inductive Step (S : Duplex σ τ ε α β) : Act → Duplex σ τ ε α β → Prop
  | leftWrite {s : σ} {bs : List Byte} {k : ℕ → Process σ ε α} (hl : S.left = .write s bs k) :
      Step S (.leftWrites bs) { S with left := k bs.length, toRight := S.toRight ++ bs }
  | leftRead {s : σ} {n : ℕ} {k : List Byte → Process σ ε α} {c y : List Byte}
      (hl : S.left = .read s n k) (hy : S.toLeft = c ++ y) (hc : c ≠ []) (hn : c.length ≤ n) :
      Step S (.leftReads c) { S with left := k c, toLeft := y }
  | rightWrite {t : τ} {bs : List Byte} {k : ℕ → Process τ ε β} (hr : S.right = .write t bs k) :
      Step S (.rightWrites bs) { S with right := k bs.length, toLeft := S.toLeft ++ bs }
  | rightRead {t : τ} {n : ℕ} {k : List Byte → Process τ ε β} {c x : List Byte}
      (hr : S.right = .read t n k) (hx : S.toRight = c ++ x) (hc : c ≠ []) (hn : c.length ≤ n) :
      Step S (.rightReads c) { S with right := k c, toRight := x }

/-- A run with its history, oldest act first. -/
inductive Run (S₀ : Duplex σ τ ε α β) : List Act → Duplex σ τ ε α β → Prop
  | nil : Run S₀ [] S₀
  | snoc {h : List Act} {S T : Duplex σ τ ε α β} {a : Act} :
      Run S₀ h S → Step S a T → Run S₀ (h ++ [a]) T

/-- No act is possible. -/
def Duplex.Final (S : Duplex σ τ ε α β) : Prop := ∀ a T, ¬ Step S a T

/-- Both sides wait for input and both channels are empty. -/
def Duplex.Deadlocked (S : Duplex σ τ ε α β) : Prop :=
  S.left.Reading ∧ S.toLeft = [] ∧ S.right.Reading ∧ S.toRight = []

/-- Every run from here comes to an end. -/
def Duplex.Stops (S : Duplex σ τ ε α β) : Prop :=
  Acc (fun T S => ∃ a, Step S a T) S

/-- What holds everywhere in a process holds of what a run leaves of it. -/
theorem Run.everywhere_left {P : σ → Prop} {Q : α → Prop} {S₀ S : Duplex σ τ ε α β}
    {h : List Act} (hrun : Run S₀ h S) (hl : S₀.left.Everywhere P Q) :
    S.left.Everywhere P Q := by
  induction hrun with
  | nil => exact hl
  | snoc _ hs ih =>
    cases hs with
    | leftWrite hl' =>
      rw [hl'] at ih
      exact ih.2 _
    | leftRead hl' =>
      rw [hl'] at ih
      exact ih.2 _
    | rightWrite _ => exact ih
    | rightRead _ => exact ih

theorem Run.everywhere_right {P : τ → Prop} {Q : β → Prop} {S₀ S : Duplex σ τ ε α β}
    {h : List Act} (hrun : Run S₀ h S) (hr : S₀.right.Everywhere P Q) :
    S.right.Everywhere P Q := by
  induction hrun with
  | nil => exact hr
  | snoc _ hs ih =>
    cases hs with
    | leftWrite _ => exact ih
    | leftRead _ => exact ih
    | rightWrite hr' =>
      rw [hr'] at ih
      exact ih.2 _
    | rightRead hr' =>
      rw [hr'] at ih
      exact ih.2 _

/-! ### Whose turn it is -/

inductive Turn where
  | idle
  | asked
  | answered (b : Byte)
  deriving DecidableEq

/-- The request/response automaton: a request, then one response byte, then the requester takes
that byte.  Reading the request is the only other thing that may happen in between. -/
def Turn.next : Turn → Act → Option Turn
  | .idle, .leftWrites _ => some .asked
  | .asked, .rightReads _ => some .asked
  | .asked, .rightWrites [b] => some (.answered b)
  | .answered b, .leftReads [c] => if b = c then some .idle else none
  | _, _ => none

/-- The response that is on the way. -/
def Turn.pending : Turn → List Byte
  | .answered b => [b]
  | _ => []

def turnAfter (h : List Act) : Option Turn := h.foldlM Turn.next .idle

theorem turnAfter_snoc (h : List Act) (a : Act) :
    turnAfter (h ++ [a]) = (turnAfter h).bind (fun t => t.next a) := by
  simp [turnAfter, List.foldlM_append, Option.bind_eq_bind]

/-- The requests a history contains. -/
def requests (h : List Act) : List (List Byte) :=
  h.filterMap fun | .leftWrites bs => some bs | _ => none

/-- The response bytes written in a history. -/
def responses (h : List Act) : List Byte :=
  h.flatMap fun | .rightWrites bs => bs | _ => []

/-- The response bytes taken by the requester in a history. -/
def taken (h : List Act) : List Byte :=
  h.flatMap fun | .leftReads bs => bs | _ => []

/-- What the automaton says about the counts: at most one request is unanswered, at most one
response is unread, and the requester takes the responses in the order they were given. -/
theorem turnAfter_counts (h : List Act) : ∀ t, turnAfter h = some t →
    (requests h).length = (responses h).length + (if t = .asked then 1 else 0) ∧
    responses h = taken h ++ t.pending := by
  induction h using List.reverseRecOn with
  | nil =>
    intro t ht
    obtain rfl : Turn.idle = t := by simpa [turnAfter] using ht
    simp [requests, responses, taken, Turn.pending]
  | append_singleton h a ih =>
    intro t ht
    rw [turnAfter_snoc] at ht
    obtain ⟨u, hu, hnext⟩ := Option.bind_eq_some_iff.mp ht
    obtain ⟨hcount, htaken⟩ := ih u hu
    -- the acts the automaton allows, one by one
    match u, a, hnext with
    | .idle, .leftWrites bs, hnext =>
      obtain rfl : Turn.asked = t := by simpa [Turn.next] using hnext
      simp_all [requests, responses, taken, Turn.pending]
    | .asked, .rightReads bs, hnext =>
      obtain rfl : Turn.asked = t := by simpa [Turn.next] using hnext
      simp_all [requests, responses, taken, Turn.pending]
    | .asked, .rightWrites [b], hnext =>
      obtain rfl : Turn.answered b = t := by simpa [Turn.next] using hnext
      simp_all [requests, responses, taken, Turn.pending]
    | .answered b, .leftReads [c], hnext =>
      simp only [Turn.next] at hnext
      split at hnext
      · rename_i hbc
        subst hbc
        obtain rfl : Turn.idle = t := by simpa using hnext
        simp_all [requests, responses, taken, Turn.pending]
      · simp at hnext

/-- When a response is taken, the automaton has just seen it given. -/
theorem turnAfter_leftReads {h₁ h₂ : List Act} {c : List Byte} {turn : Turn}
    (h : turnAfter (h₁ ++ .leftReads c :: h₂) = some turn) :
    ∃ b, c = [b] ∧ turnAfter h₁ = some (.answered b) := by
  rw [turnAfter, List.foldlM_append] at h
  obtain ⟨t₁, ht₁, h⟩ := Option.bind_eq_some_iff.mp h
  rw [List.foldlM_cons] at h
  obtain ⟨t₂, ht₂, -⟩ := Option.bind_eq_some_iff.mp h
  match t₁, c, ht₁, ht₂ with
  | .answered b, [c], ht₁, ht₂ =>
    simp only [Turn.next] at ht₂
    split at ht₂
    · rename_i hbc
      exact ⟨b, by rw [hbc], ht₁⟩
    · cases ht₂

/-! ### Consuming a request -/

inductive Eats (P : Process τ ε β → Prop) : Process τ ε β → List Byte → Process τ ε β → Prop
  | done {p : Process τ ε β} : P p → Eats P p [] p
  | read {t : τ} {n : ℕ} {k : List Byte → Process τ ε β} {bs : List Byte} {q : Process τ ε β} :
      P (.read t n k) → 0 < n → n ≤ bs.length →
      (∀ c rest, bs = c ++ rest → c ≠ [] → c.length ≤ n → Eats P (k c) rest q) →
      Eats P (.read t n k) bs q

theorem Eats.here {P : Process τ ε β → Prop} {p q : Process τ ε β} {bs : List Byte}
    (h : Eats P p bs q) : P p := by
  cases h with
  | done hp => exact hp
  | read hp _ _ _ => exact hp

/-- Nothing is read from an empty channel. -/
theorem no_chunk {c y : List Byte} (h : [] = c ++ y) (hc : c ≠ []) : False :=
  hc (List.append_eq_nil_iff.mp h.symm).1

/-- A pending read takes any chunk of the request. -/
theorem Eats.chunk {P : Process τ ε β → Prop} {t : τ} {n : ℕ} {k : List Byte → Process τ ε β}
    {bs c rest : List Byte} {q : Process τ ε β} (h : Eats P (.read t n k) bs q)
    (heq : bs = c ++ rest) (hc : c ≠ []) (hn : c.length ≤ n) : Eats P (k c) rest q := by
  cases h with
  | done _ => exact (no_chunk heq hc).elim
  | read _ _ _ hk => exact hk c rest heq hc hn

theorem Eats.trans {P : Process τ ε β → Prop} {p q r : Process τ ε β} {b₁ b₂ : List Byte}
    (h₁ : Eats P p b₁ q) (h₂ : Eats P q b₂ r) : Eats P p (b₁ ++ b₂) r := by
  induction h₁ with
  | done _ => exact h₂
  | @read t n k bs q hp hn hle _ ih =>
    apply Eats.read hp hn (by rw [List.length_append]; omega)
    intro c rest heq hc hcn
    -- a chunk no longer than what was asked for lies inside the first request
    have hbs : bs = c ++ bs.drop c.length := by
      have htake := congrArg (List.take c.length) heq
      rw [List.take_left, List.take_append_of_le_length (by omega)] at htake
      rw [← htake, List.length_take, Nat.min_eq_left (by omega), List.take_append_drop]
    rw [hbs, List.append_assoc, List.append_cancel_left_eq] at heq
    rw [← heq]
    exact ih c _ hbs hc hcn h₂

/-- A request is consumed in one way only. -/
theorem Eats.unique {P P' : Process τ ε β → Prop} {p q q' : Process τ ε β} {bs : List Byte}
    (h : Eats P p bs q) (h' : Eats P' p bs q') : q = q' := by
  induction h with
  | done _ =>
    cases h' with
    | done _ => rfl
    | read _ hn hle _ => simp at hle; omega
  | @read t n k bs q _ hn hle _ ih =>
    cases h' with
    | done _ => simp at hle; omega
    | read _ _ _ hk =>
      have hsplit := (List.take_append_drop n bs).symm
      have hlen : (bs.take n).length = n := by rw [List.length_take]; omega
      have hne : bs.take n ≠ [] := List.ne_nil_of_length_pos (by omega)
      exact ih _ _ hsplit hne hlen.le (hk _ _ hsplit hne hlen.le)

/-- What is consumed after a request was consumed. -/
theorem Eats.rest {P P' : Process τ ε β → Prop} {p q r : Process τ ε β} {b₁ b₂ : List Byte}
    (h₁ : Eats P p b₁ q) (h₂ : Eats P' p (b₁ ++ b₂) r) : Eats P' q b₂ r := by
  induction h₁ with
  | done _ => exact h₂
  | @read t n k bs q _ hn hle _ ih =>
    have hsplit := (List.take_append_drop n bs).symm
    have hlen : (bs.take n).length = n := by rw [List.length_take]; omega
    have hne : bs.take n ≠ [] := List.ne_nil_of_length_pos (by omega)
    refine ih _ _ hsplit hne hlen.le (h₂.chunk ?_ hne hlen.le)
    rw [← List.append_assoc, List.take_append_drop]

/-- Bytes that are consumed in any chunks are consumed from a file. -/
theorem Eats.fileRun {P : Process τ ε β → Prop} {p q : Process τ ε β} {bs : List Byte}
    (h : Eats P p bs q) (rest : List Byte) :
    Process.fileRun p (bs ++ rest) = Process.fileRun q rest := by
  induction h with
  | done _ => rfl
  | @read t n k bs q _ hn hle _ ih =>
    have hlen : (bs.take n).length = n := by
      rw [List.length_take]
      omega
    rw [Process.fileRun_read, List.take_append_of_le_length hle, List.drop_append_of_le_length hle]
    exact ih _ _ (List.take_append_drop n bs).symm (List.ne_nil_of_length_pos (by omega)) hlen.le

/-! ### Lock-step runs -/

inductive Settles (Q : Process σ ε α → Process τ ε β → Prop) :
    Process σ ε α → Process τ ε β → Process σ ε α → Process τ ε β → Prop
  /-- The left side has ended; the right side has nothing more to say. -/
  | leftDone {l : Process σ ε α} {r : Process τ ε β} :
      Q l r → l.Done → r.Quiet → Settles Q l r l r
  /-- The right side has ended before this request. -/
  | unread {s s' : σ} {bs : List Byte} {kl : ℕ → Process σ ε α}
      {k : List Byte → Process σ ε α} {r : Process τ ε β} :
      kl bs.length = .read s' 1 k → Q (.write s bs kl) r → Q (.read s' 1 k) r → r.Done →
      Settles Q (.write s bs kl) r (.read s' 1 k) r
  /-- The right side ends while it handles this request. -/
  | dies {s s' : σ} {bs : List Byte} {kl : ℕ → Process σ ε α}
      {k : List Byte → Process σ ε α} {r q : Process τ ε β} :
      kl bs.length = .read s' 1 k → Q (.write s bs kl) r → r.Quiet →
      Eats (Q (.read s' 1 k)) r bs q → q.Done →
      Settles Q (.write s bs kl) r (.read s' 1 k) q
  /-- One request and its response. -/
  | exchange {s s' : σ} {bs : List Byte} {kl : ℕ → Process σ ε α}
      {k : List Byte → Process σ ε α} {r : Process τ ε β} {t : τ} {b : Byte}
      {kr : ℕ → Process τ ε β} {lf : Process σ ε α} {rf : Process τ ε β} :
      kl bs.length = .read s' 1 k → Q (.write s bs kl) r → r.Quiet →
      Eats (Q (.read s' 1 k)) r bs (.write t [b] kr) → Q (.read s' 1 k) (kr 1) →
      Settles Q (k [b]) (kr 1) lf rf → Settles Q (.write s bs kl) r lf rf

section settles

variable {Q : Process σ ε α → Process τ ε β → Prop}
variable {l lf : Process σ ε α} {r rf : Process τ ε β}

theorem Settles.here (h : Settles Q l r lf rf) : Q l r := by
  cases h with
  | leftDone h _ _ => exact h
  | unread _ h _ _ => exact h
  | dies _ h _ _ _ => exact h
  | exchange _ h _ _ _ _ => exact h

theorem Settles.quiet (h : Settles Q l r lf rf) : r.Quiet := by
  cases h with
  | leftDone _ _ h => exact h
  | unread _ _ _ h => exact h.quiet
  | dies _ _ h _ _ => exact h
  | exchange _ _ h _ _ _ => exact h

theorem Settles.left_not_reading (h : Settles Q l r lf rf) : ¬ l.Reading := by
  cases h with
  | leftDone _ h _ => exact h.not_reading
  | unread _ _ _ _ => exact id
  | dies _ _ _ _ _ => exact id
  | exchange _ _ _ _ _ _ => exact id

/-- Where an interleaved run can be relative to the lock-step run that ends at `lf`, `rf`. -/
inductive Phase (Q : Process σ ε α → Process τ ε β → Prop) (lf : Process σ ε α)
    (rf : Process τ ε β) : Duplex σ τ ε α β → Turn → Prop
  | idle {l : Process σ ε α} {r : Process τ ε β} :
      Settles Q l r lf rf → Phase Q lf rf ⟨l, r, [], []⟩ .idle
  | asked {s : σ} {k : List Byte → Process σ ε α} {r : Process τ ε β} {bs : List Byte} {t : τ}
      {b : Byte} {kr : ℕ → Process τ ε β} :
      Eats (Q (.read s 1 k)) r bs (.write t [b] kr) → Q (.read s 1 k) (kr 1) →
      Settles Q (k [b]) (kr 1) lf rf → Phase Q lf rf ⟨.read s 1 k, r, bs, []⟩ .asked
  | dying {s : σ} {k : List Byte → Process σ ε α} {r q : Process τ ε β} {bs : List Byte} :
      Eats (Q (.read s 1 k)) r bs q → q.Done → lf = .read s 1 k → rf = q →
      Phase Q lf rf ⟨.read s 1 k, r, bs, []⟩ .asked
  | unread {s : σ} {k : List Byte → Process σ ε α} {r : Process τ ε β} {bs : List Byte} :
      Q (.read s 1 k) r → r.Done → lf = .read s 1 k → rf = r →
      Phase Q lf rf ⟨.read s 1 k, r, bs, []⟩ .asked
  | answered {s : σ} {k : List Byte → Process σ ε α} {r : Process τ ε β} {b : Byte} :
      Q (.read s 1 k) r → Settles Q (k [b]) r lf rf →
      Phase Q lf rf ⟨.read s 1 k, r, [], [b]⟩ (.answered b)

/-- **One step stays within the phases**, and is one the automaton allows. -/
theorem Phase.step {S T : Duplex σ τ ε α β} {a : Act} {t : Turn} (h : Phase Q lf rf S t)
    (hs : Step S a T) : ∃ u, t.next a = some u ∧ Phase Q lf rf T u := by
  cases h with
  | idle h =>
    cases hs with
    | leftWrite hl =>
      subst hl
      refine ⟨.asked, rfl, ?_⟩
      cases h with
      | leftDone _ hd _ => exact absurd hd (not_done_write _ _ _)
      | unread hk _ hQ hd => simpa only [List.nil_append, hk] using .unread hQ hd rfl rfl
      | dies hk _ _ he hd => simpa only [List.nil_append, hk] using .dying he hd rfl rfl
      | exchange hk _ _ he hQ hset => simpa only [List.nil_append, hk] using .asked he hQ hset
    | leftRead hl =>
      subst hl
      exact absurd trivial h.left_not_reading
    | rightWrite hr =>
      subst hr
      exact absurd h.quiet id
    | rightRead _ hx hc => exact (no_chunk hx hc).elim
  | asked he hQ hset =>
    cases hs with
    | leftWrite hl => cases hl
    | leftRead _ hy hc => exact (no_chunk hy hc).elim
    | rightWrite hr =>
      subst hr
      cases he with
      | done _ => exact ⟨_, rfl, .answered hQ hset⟩
    | rightRead hr hx hc hn =>
      subst hr
      exact ⟨_, rfl, .asked (he.chunk hx hc hn) hQ hset⟩
  | dying he hd hl' hr' =>
    cases hs with
    | leftWrite hl => cases hl
    | leftRead _ hy hc => exact (no_chunk hy hc).elim
    | rightWrite hr =>
      subst hr
      cases he with
      | done _ => exact absurd hd (not_done_write _ _ _)
    | rightRead hr hx hc hn =>
      subst hr
      exact ⟨_, rfl, .dying (he.chunk hx hc hn) hd hl' hr'⟩
  | unread hQ hd hl' hr' =>
    cases hs with
    | leftWrite hl => cases hl
    | leftRead _ hy hc => exact (no_chunk hy hc).elim
    | rightWrite hr =>
      subst hr
      exact absurd hd (not_done_write _ _ _)
    | rightRead hr =>
      subst hr
      exact absurd hd (not_done_read _ _ _)
  | answered hQ hset =>
    cases hs with
    | leftWrite hl => cases hl
    | leftRead hl hy hc hn =>
      cases hl
      rcases List.append_eq_singleton_iff.mp hy.symm with h | h
      · exact absurd h.1 hc
      · obtain ⟨rfl, rfl⟩ := h
        exact ⟨.idle, by simp [Turn.next], .idle hset⟩
    | rightWrite hr =>
      subst hr
      exact absurd hset.quiet id
    | rightRead _ hx hc => exact (no_chunk hx hc).elim

/-- **Every interleaved run stays within the phases of the lock-step run.** -/
theorem Settles.phase (h : Settles Q l r lf rf) {hist : List Act} {S : Duplex σ τ ε α β}
    (hrun : Run (.start l r) hist S) : ∃ t, turnAfter hist = some t ∧ Phase Q lf rf S t := by
  induction hrun with
  | nil => exact ⟨.idle, rfl, .idle h⟩
  | snoc _ hs ih =>
    obtain ⟨t, ht, hp⟩ := ih
    obtain ⟨u, hu, hp'⟩ := hp.step hs
    exact ⟨u, by rw [turnAfter_snoc, ht, Option.bind_some, hu], hp'⟩

/-- The response channel holds what the automaton says is on the way. -/
theorem Phase.toLeft {S : Duplex σ τ ε α β} {t : Turn} (h : Phase Q lf rf S t) :
    S.toLeft = t.pending := by
  cases h <;> rfl

theorem Phase.here {S : Duplex σ τ ε α β} {t : Turn} (h : Phase Q lf rf S t) :
    Q S.left S.right := by
  cases h with
  | idle h => exact h.here
  | asked he _ _ => exact he.here
  | dying he _ _ _ => exact he.here
  | unread hQ _ _ _ => exact hQ
  | answered hQ _ => exact hQ

/-- A process that has nothing left to eat has eaten. -/
theorem Eats.eq_of_nil {P : Process τ ε β → Prop} {p q : Process τ ε β} (h : Eats P p [] q) :
    p = q := by
  cases h with
  | done _ => rfl
  | read _ hn hle _ =>
    simp only [List.length_nil] at hle
    omega

theorem Phase.not_deadlocked {S : Duplex σ τ ε α β} {t : Turn} (h : Phase Q lf rf S t) :
    ¬ S.Deadlocked := by
  intro hstuck
  obtain ⟨hl, hy, hr, hx⟩ := hstuck
  cases h with
  | idle h => exact h.left_not_reading hl
  | asked he _ _ =>
    simp only at hx
    subst hx
    rw [he.eq_of_nil] at hr
    exact hr
  | dying he hd _ _ =>
    simp only at hx
    subst hx
    rw [he.eq_of_nil] at hr
    exact hd.not_reading hr
  | unread _ hd _ _ => exact hd.not_reading hr
  | answered _ _ => cases hy

/-- A process still eating a request that lies in its channel can go on. -/
theorem Eats.step_of_ne_nil {P : Process τ ε β → Prop} {p q : Process τ ε β} {bs : List Byte}
    (h : Eats P p bs q) (hne : bs ≠ []) (l : Process σ ε α) (y : List Byte) :
    ∃ a T, Step ⟨l, p, bs, y⟩ a T := by
  cases h with
  | done _ => exact absurd rfl hne
  | @read t n k bs q _ hn hle _ =>
    have hlen : (bs.take n).length = n := by rw [List.length_take]; omega
    exact ⟨_, _, .rightRead rfl (List.take_append_drop n bs).symm
      (List.ne_nil_of_length_pos (by omega)) hlen.le⟩

/-- A process that can go no further has eaten its request. -/
theorem Eats.eq_of_final {P : Process τ ε β → Prop} {p q : Process τ ε β} {bs : List Byte}
    (h : Eats P p bs q) {l : Process σ ε α} {y : List Byte}
    (hf : Duplex.Final ⟨l, p, bs, y⟩) : p = q := by
  by_cases hne : bs = []
  · subst hne
    exact h.eq_of_nil
  · obtain ⟨a, T, hs⟩ := h.step_of_ne_nil hne l y
    exact absurd hs (hf a T)

/-- **A run that can go no further has come to rest where the lock-step run does.** -/
theorem Phase.final {S : Duplex σ τ ε α β} {t : Turn} (h : Phase Q lf rf S t) (hf : S.Final) :
    S.left = lf ∧ S.right = rf := by
  cases h with
  | idle h =>
    cases h with
    | leftDone _ _ _ => exact ⟨rfl, rfl⟩
    | unread _ _ _ _ => exact absurd (Step.leftWrite rfl) (hf _ _)
    | dies _ _ _ _ _ => exact absurd (Step.leftWrite rfl) (hf _ _)
    | exchange _ _ _ _ _ _ => exact absurd (Step.leftWrite rfl) (hf _ _)
  | asked he _ _ => exact absurd (Step.rightWrite (he.eq_of_final hf)) (hf _ _)
  | dying he _ hl hr => exact ⟨hl.symm, (he.eq_of_final hf).trans hr.symm⟩
  | unread _ _ hl hr => exact ⟨hl.symm, hr.symm⟩
  | @answered s k r b _ _ =>
    exact absurd (Step.leftRead (c := [b]) (y := []) rfl rfl (by simp) (by simp)) (hf _ _)

/-- Once the left side has ended, the whole run has. -/
theorem Phase.left_done {S : Duplex σ τ ε α β} {t : Turn} (h : Phase Q lf rf S t)
    (hd : S.left.Done) : S.left = lf ∧ S.right = rf := by
  cases h with
  | idle h =>
    cases h with
    | leftDone _ _ _ => exact ⟨rfl, rfl⟩
    | unread _ _ _ _ | dies _ _ _ _ _ | exchange _ _ _ _ _ _ => cases hd
  | asked _ _ _ | dying _ _ _ _ | unread _ _ _ _ | answered _ _ => cases hd

/-- A run that can go no further has nothing on the way, or its right side has ended over the last
request. -/
theorem Phase.final_turn {S : Duplex σ τ ε α β} {t : Turn} (h : Phase Q lf rf S t)
    (hf : S.Final) : t = .idle ∨ t = .asked ∧ S.right.Done := by
  cases h with
  | idle _ => exact .inl rfl
  | asked he _ _ => exact absurd (Step.rightWrite (he.eq_of_final hf)) (hf _ _)
  | dying he hd _ _ =>
    refine .inr ⟨rfl, ?_⟩
    rw [show _ = _ from he.eq_of_final hf]
    exact hd
  | unread _ hd _ _ => exact .inr ⟨rfl, hd⟩
  | @answered s k r b _ _ =>
    exact absurd (Step.leftRead (c := [b]) (y := []) rfl rfl (by simp) (by simp)) (hf _ _)

/-! ### Termination -/

theorem Eats.stops {P : Process τ ε β → Prop} {q : Process τ ε β} {bs : List Byte}
    (h : Eats P r bs q) {s : σ} {k : List Byte → Process σ ε α}
    (hq : Duplex.Stops ⟨.read s 1 k, q, [], []⟩) : Duplex.Stops ⟨.read s 1 k, r, bs, []⟩ := by
  induction h with
  | done _ => exact hq
  | read _ _ _ _ ih =>
    refine Acc.intro _ ?_
    intro T hnext
    obtain ⟨a, hs⟩ := hnext
    cases hs with
    | leftWrite hl => cases hl
    | leftRead _ hy hc => exact (no_chunk hy hc).elim
    | rightWrite hr => cases hr
    | rightRead hr hx hc hn =>
      cases hr
      exact ih _ _ hx hc hn hq

theorem stops_of_right_done {s : σ} {k : List Byte → Process σ ε α} (hd : r.Done)
    (bs : List Byte) : Duplex.Stops ⟨.read s 1 k, r, bs, []⟩ := by
  refine Acc.intro _ ?_
  intro T hnext
  obtain ⟨a, hs⟩ := hnext
  cases hs with
  | leftWrite hl => cases hl
  | leftRead _ hy hc => exact (no_chunk hy hc).elim
  | rightWrite hr =>
    subst hr
    exact absurd hd (not_done_write _ _ _)
  | rightRead hr =>
    subst hr
    exact absurd hd (not_done_read _ _ _)

theorem stops_of_request {s s' : σ} {bs : List Byte} {kl : ℕ → Process σ ε α}
    {k : List Byte → Process σ ε α} (hk : kl bs.length = .read s' 1 k) (hq : r.Quiet)
    (h : Duplex.Stops ⟨.read s' 1 k, r, bs, []⟩) : Duplex.Stops ⟨.write s bs kl, r, [], []⟩ := by
  refine Acc.intro _ ?_
  intro T hnext
  obtain ⟨a, hs⟩ := hnext
  cases hs with
  | leftWrite hl =>
    cases hl
    rw [hk, List.nil_append]
    exact h
  | leftRead hl => cases hl
  | rightWrite hr =>
    subst hr
    exact absurd hq id
  | rightRead _ hx hc => exact (no_chunk hx hc).elim

/-- **Every interleaved run of a settling pair comes to an end.** -/
theorem Settles.stops (h : Settles Q l r lf rf) : (Duplex.start l r).Stops := by
  induction h with
  | @leftDone l r _ hd hq =>
    refine Acc.intro _ ?_
    intro T hnext
    obtain ⟨a, hs⟩ := hnext
    cases hs with
    | leftWrite hl =>
      cases l <;> simp_all [Duplex.start]
    | leftRead _ hy hc => exact (no_chunk hy hc).elim
    | rightWrite hr =>
      cases r <;> simp_all [Duplex.start, Quiet]
    | rightRead _ hx hc => exact (no_chunk hx hc).elim
  | unread hk _ _ hd => exact stops_of_request hk hd.quiet (stops_of_right_done hd _)
  | dies hk _ hq he hd => exact stops_of_request hk hq (he.stops (stops_of_right_done hd _))
  | @exchange s s' bs kl k r t b kr lf rf hk _ hq he _ hset ih =>
    have hans : Duplex.Stops ⟨.read s' 1 k, kr 1, [], [b]⟩ := by
      refine Acc.intro _ ?_
      intro T hnext
      obtain ⟨a, hs⟩ := hnext
      cases hs with
      | leftWrite hl => cases hl
      | leftRead hl hy hc hn =>
        cases hl
        rcases List.append_eq_singleton_iff.mp hy.symm with h | h
        · exact absurd h.1 hc
        · obtain ⟨rfl, rfl⟩ := h
          exact ih
      | rightWrite hr =>
        have := hset.quiet
        simp_all [Quiet]
      | rightRead _ hx hc => exact (no_chunk hx hc).elim
    refine stops_of_request hk hq (he.stops (Acc.intro _ ?_))
    intro T hnext
    obtain ⟨a, hs⟩ := hnext
    cases hs with
    | leftWrite hl => cases hl
    | leftRead _ hy hc => exact (no_chunk hy hc).elim
    | rightWrite hr =>
      cases hr
      exact hans
    | rightRead hr => cases hr

/-- A settling pair ends in one way. -/
theorem Settles.outcome (h : Settles Q l r lf rf) : (Duplex.start l r).Stops ∧
    ∀ hist S, Run (.start l r) hist S → S.Final → S.left = lf ∧ S.right = rf := by
  refine ⟨h.stops, fun hist S hrun hfinal => ?_⟩
  obtain ⟨turn, -, hphase⟩ := h.phase hrun
  exact hphase.final hfinal

/-- A run that stops can be continued to a state that allows no step. -/
theorem Run.exists_final {S₀ S : Duplex σ τ ε α β} {h : List Act} (hrun : Run S₀ h S)
    (hst : S.Stops) : ∃ h' T, Run S₀ h' T ∧ T.Final := by
  induction hst generalizing h with
  | intro S _ ih =>
    by_cases hf : S.Final
    · exact ⟨h, S, hrun, hf⟩
    · simp only [Duplex.Final, not_forall, not_not] at hf
      obtain ⟨a, T, hs⟩ := hf
      exact ih T ⟨a, hs⟩ (hrun.snoc hs)

end settles

/-! ### Requesters and responders without a fixed partner -/

/-- A process that only ever writes requests from `F`, each followed by a read of one byte. -/
inductive Client (F : List Byte → Prop) : Process σ ε α → Prop
  | done {p : Process σ ε α} : p.Done → Client F p
  | ask {s s' : σ} {bs : List Byte} {kl : ℕ → Process σ ε α} {k : List Byte → Process σ ε α} :
      F bs → kl bs.length = .read s' 1 k → (∀ b, Client F (k [b])) → Client F (.write s bs kl)

/-- A process that consumes any request from `F` exactly and then writes one byte or ends. -/
inductive Server (F : List Byte → Prop) : Process τ ε β → Prop
  | done {p : Process τ ε β} : p.Done → Server F p
  | serve {p : Process τ ε β} : p.Quiet →
      (∀ bs, F bs → ∃ q, Eats (fun _ => True) p bs q ∧
        (q.Done ∨ ∃ t b kr, q = .write t [b] kr)) →
      (∀ bs t b kr, F bs → Eats (fun _ => True) p bs (.write t [b] kr) → Server F (kr 1)) →
      Server F p

/-- The process has ended or is about to answer and then serve again. -/
def Answers (F : List Byte → Prop) (q : Process τ ε β) : Prop :=
  q.Done ∨ ∃ t b kr, q = .write t [b] kr ∧ Server F (kr 1)

theorem Server.of_answers {F : List Byte → Prop} {p : Process τ ε β} (hq : p.Quiet)
    (h : ∀ bs, F bs → ∃ q, Eats (fun _ => True) p bs q ∧ Answers F q) : Server F p := by
  refine .serve hq ?_ ?_
  · intro bs hF
    obtain ⟨q, he, hd | ⟨t, b, kr, rfl, -⟩⟩ := h bs hF
    · exact ⟨q, he, .inl hd⟩
    · exact ⟨_, he, .inr ⟨t, b, kr, rfl⟩⟩
  · intro bs t b kr hF he
    obtain ⟨q, he', hans⟩ := h bs hF
    obtain rfl := he.unique he'
    rcases hans with hd | ⟨t', b', kr', hq', hserve⟩
    · exact absurd hd (not_done_write _ _ _)
    · cases hq'
      exact hserve

theorem Server.quiet {F : List Byte → Prop} {p : Process τ ε β} (h : Server F p) : p.Quiet := by
  cases h with
  | done hd => exact hd.quiet
  | serve hq _ _ => exact hq

/-- **A requester and a responder settle**, whatever they say to each other. -/
theorem Client.settles {F : List Byte → Prop} {l : Process σ ε α} {r : Process τ ε β}
    (hl : Client F l) (hr : Server F r) :
    ∃ lf rf, Settles (fun _ _ => True) l r lf rf := by
  induction hl generalizing r with
  | done hd => exact ⟨_, _, .leftDone trivial hd hr.quiet⟩
  | @ask s s' bs kl k hF hk _ ih =>
    cases hr with
    | done hd => exact ⟨_, _, .unread hk trivial trivial hd⟩
    | serve hq heat hnext =>
      obtain ⟨q, he, hd | ⟨t, b, kr, rfl⟩⟩ := heat bs hF
      · exact ⟨_, _, .dies hk trivial hq he hd⟩
      · obtain ⟨lf, rf, hset⟩ := ih b (hnext bs t b kr hF he)
        exact ⟨lf, rf, .exchange hk trivial hq he trivial hset⟩

/-! ### Lock-step -/

/-- What holds of a run with history `hist` that has come to `S`, with requests from `F`. -/
structure LockStep (F : List Byte → Prop) (hist : List Act) (S : Duplex σ τ ε α β) : Prop where
  /-- Request, response and the taking of the response follow each other strictly. -/
  alternates : ∃ turn, turnAfter hist = some turn
  requested : ∀ bs ∈ requests hist, F bs
  /-- At most one request is unanswered, and none is answered twice. -/
  unanswered : (responses hist).length ≤ (requests hist).length ∧
    (requests hist).length ≤ (responses hist).length + 1
  /-- At most one response is unread; the others were taken in the order they were given. -/
  unread : S.toLeft.length ≤ 1 ∧ responses hist = taken hist ++ S.toLeft
  /-- A response is taken after the request it answers and before any other. -/
  own : ∀ h₁ c h₂, hist = h₁ ++ .leftReads c :: h₂ → c.length = 1 ∧
    (requests h₁).length = (taken h₁).length + 1 ∧ responses h₁ = taken h₁ ++ c
  /-- The two sides never wait for each other. -/
  live : ¬ S.Deadlocked
  /-- Where a run ends, every request was answered unless the right side ended over the last one. -/
  answered : S.Final → (requests hist).length = (responses hist).length ∨ S.right.Done

/-- A run never leaves the requests of its requester. -/
theorem Client.requested {F : List Byte → Prop} {l : Process σ ε α} {r : Process τ ε β}
    (hl : Client F l) {hist : List Act} {S : Duplex σ τ ε α β} (hrun : Run (.start l r) hist S) :
    (∀ bs ∈ requests hist, F bs) ∧
      (Client F S.left ∨ ∃ s k, S.left = .read s 1 k ∧ ∀ b, Client F (k [b])) := by
  induction hrun with
  | nil => exact ⟨by simp [requests], .inl hl⟩
  | snoc _ hs ih =>
    obtain ⟨hmem, hleft⟩ := ih
    cases hs with
    | @leftWrite s bs k hw =>
      rcases hleft with hc | ⟨s', k', hr, -⟩
      · rw [hw] at hc
        cases hc with
        | done hd => exact absurd hd (not_done_write _ _ _)
        | ask hF hk hnext =>
          refine ⟨?_, .inr ⟨_, _, hk, hnext⟩⟩
          rw [requests, List.filterMap_append]
          intro bs' hbs'
          rcases List.mem_append.mp hbs' with hbs' | hbs'
          · exact hmem bs' hbs'
          · obtain rfl : bs' = bs := by simpa using hbs'
            exact hF
      · rw [hw] at hr
        cases hr
    | @leftRead s n k c y hr hy hc hn =>
      refine ⟨by simpa [requests] using hmem, .inl ?_⟩
      rcases hleft with hcl | ⟨s', k', hr', hnext⟩
      · rw [hr] at hcl
        cases hcl with
        | done hd => exact absurd hd (not_done_read _ _ _)
      · rw [hr] at hr'
        cases hr'
        obtain ⟨b, rfl⟩ : ∃ b, c = [b] := List.length_eq_one_iff.mp (by
          have := List.length_pos_iff.mpr hc
          omega)
        exact hnext b
    | rightWrite _ => exact ⟨by simpa [requests] using hmem, hleft⟩
    | rightRead _ => exact ⟨by simpa [requests] using hmem, hleft⟩

/-- **A requester and a responder run in lock-step**, in every interleaving. -/
theorem Client.lockStep {F : List Byte → Prop} {l : Process σ ε α} {r : Process τ ε β}
    (hl : Client F l) (hr : Server F r) {hist : List Act} {S : Duplex σ τ ε α β}
    (hrun : Run (.start l r) hist S) : LockStep F hist S := by
  obtain ⟨lf, rf, hset⟩ := hl.settles hr
  obtain ⟨turn, hturn, hphase⟩ := hset.phase hrun
  obtain ⟨hcount, htaken⟩ := turnAfter_counts hist turn hturn
  refine ⟨⟨turn, hturn⟩, (hl.requested hrun).1, ?_, ?_, ?_, hphase.not_deadlocked, ?_⟩
  · split_ifs at hcount <;> omega
  · rw [hphase.toLeft]
    exact ⟨by cases turn <;> simp [Turn.pending], htaken⟩
  · intro h₁ c h₂ heq
    subst heq
    obtain ⟨b, rfl, hb⟩ := turnAfter_leftReads hturn
    obtain ⟨hcount₁, htaken₁⟩ := turnAfter_counts h₁ _ hb
    refine ⟨rfl, ?_, htaken₁⟩
    rw [hcount₁, htaken₁]
    simp [Turn.pending]
  · intro hf
    rcases hphase.final_turn hf with rfl | ⟨-, hd⟩
    · exact .inl (by simpa using hcount)
    · exact .inr hd

end Risu.Lib
