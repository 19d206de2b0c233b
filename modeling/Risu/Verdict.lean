import Risu.Pairing
import Risu.Ppc64.Accepted
import Risu.Ppc64.Endian

/-!
# The verdict

What the exit codes of the two programs say about the two event sequences, in every run over the
socket.

* `Verdict` — the apprentice succeeds if and only if the kept events agree pair by pair up to `TESTEND`,
  and otherwise stops at the first pair that does not, with the code of that pair;
* `apprentice_verdict_iff` — it is so unless a record is sent in another length than announced, which
  only a build that swaps headers does;
* `master_success_iff` — a successful master means a successful apprentice exactly when the
  apprentice refuses no record: at `done:` every refusal is answered with `RES_END`, and the
  master takes that byte for the end of the test.
-/

namespace Risu

open Lib Lib.Process

variable {A : Arch}

/-! ### Sessions and their course -/

/-- Every session comes to rest, and its ending is decided by the pairing. -/
theorem session_course (es fs : List (Event A)) :
    ∃ E lf rf, Settles (Seen fun _ _ => True) (master false es (.start A))
        (apprentice false fs (.start A)) lf rf ∧ E.Reached rf ∧
      ((∃ s, lf = .ret (.jump .resEnd, s)) ↔ E.Answered) ∧
      Course E 0 (sent es) (kept fs false none 0) := by
  obtain ⟨lf, rf, hset, hreach, hans⟩ := settles_session (R := fun _ _ => True)
    (fun _ _ _ => trivial) es (.start A) (.inr fun _ _ => trivial) fs (.start A) rfl
  refine ⟨_, lf, rf, hset, hreach, hans, ?_⟩
  rw [records_eq]
  exact follow_course fs (.start A) (forall₂_record _)

/-! ### The apprentice's verdict -/

/-- The events of a test image: illegal instructions only, each with an op, the only `TESTEND` at the
end, and `memblock` set before it is compared. -/
structure TestImage (es : List (Event A)) : Prop where
  sigill : ∀ e ∈ es, e.sig = .sigill
  valid : ∀ e ∈ es, (RisuOp.ofCode e.code).isSome = true
  testend : ∃ pre e, es = pre ++ [e] ∧ RisuOp.ofCode e.code = some .testend ∧
    ∀ p ∈ pre, RisuOp.ofCode p.code ≠ some .testend
  ready : memblockReady none es = true

/-- A list of kept events that ends in its only `TESTEND`. -/
def EndsTest (L : List (Site A)) : Prop :=
  ∃ K c, L = K ++ [c] ∧ c.op = some .testend ∧ ∀ k ∈ K, k.op ≠ some .testend

theorem EndsTest.ne_nil {L : List (Site A)} (h : EndsTest L) : L ≠ [] := by
  obtain ⟨K, c, rfl, -⟩ := h
  simp

/-- After an event that is not the `TESTEND` the list goes on to it. -/
theorem EndsTest.tail {c : Site A} {L : List (Site A)} (h : EndsTest (c :: L))
    (hc : c.op ≠ some .testend) : EndsTest L := by
  obtain ⟨K, d, heq, hd, hK⟩ := h
  cases K with
  | nil =>
    obtain ⟨rfl, -⟩ := List.cons.inj heq
    exact absurd hd hc
  | cons k K =>
    obtain ⟨rfl, rfl⟩ := List.cons.inj heq
    exact ⟨K, d, rfl, hd, fun k' hk => hK k' (List.mem_cons_of_mem _ hk)⟩

theorem EndsTest.cons {c : Site A} {L : List (Site A)} (hc : c.op ≠ some .testend)
    (h : EndsTest L) : EndsTest (c :: L) := by
  obtain ⟨K, d, rfl, hd, hK⟩ := h
  refine ⟨c :: K, d, rfl, hd, ?_⟩
  intro k hk
  rcases List.mem_cons.mp hk with rfl | hk
  · exact hc
  · exact hK k hk

/-- A `TESTEND` at the head is the end. -/
theorem EndsTest.eq_singleton {c : Site A} {L : List (Site A)} (h : EndsTest (c :: L))
    (hc : c.op = some .testend) : L = [] := by
  obtain ⟨K, d, heq, -, hK⟩ := h
  cases K with
  | nil => exact (List.cons.inj heq).2
  | cons k K =>
    obtain ⟨rfl, -⟩ := List.cons.inj heq
    exact absurd hc (hK c List.mem_cons_self)

/-- What is kept of a test image has an op each, and ends in its only `TESTEND`. -/
theorem kept_testImage {es : List (Event A)} (hsig : ∀ e ∈ es, e.sig = .sigill)
    (hvalid : ∀ e ∈ es, (RisuOp.ofCode e.code).isSome = true)
    (hend : ∃ pre e, es = pre ++ [e] ∧ RisuOp.ofCode e.code = some .testend ∧
      ∀ p ∈ pre, RisuOp.ofCode p.code ≠ some .testend)
    (isSetup : Bool) (p : Option A.Ptr) (n : ℕ) :
    EndsTest (kept es isSetup p n) ∧ ∀ c ∈ kept es isSetup p n, c.op.isSome = true := by
  induction es generalizing isSetup p n with
  | nil =>
    obtain ⟨pre, e, h, -⟩ := hend
    simp at h
  | cons e es ih =>
    obtain ⟨op, hop⟩ := Option.isSome_iff_exists.mp (hvalid e List.mem_cons_self)
    rw [kept_cons es isSetup p n (hsig e List.mem_cons_self) hop]
    by_cases htest : op = .testend
    · subst htest
      have hskip : ¬ e.Skipped isSetup := fun h => by simpa [hop] using h.op
      rw [if_neg hskip, if_pos rfl]
      refine ⟨⟨[], _, rfl, hop, by simp⟩, ?_⟩
      simp [Site.op, hop]
    · -- the rest of the image is a test image again
      have hrest : ∃ pre e', es = pre ++ [e'] ∧ RisuOp.ofCode e'.code = some .testend ∧
          ∀ p ∈ pre, RisuOp.ofCode p.code ≠ some .testend := by
        obtain ⟨pre, e', heq, he', hpre⟩ := hend
        cases pre with
        | nil =>
          obtain ⟨rfl, -⟩ := List.cons.inj heq
          simp [hop, htest] at he'
        | cons x pre =>
          obtain ⟨rfl, rfl⟩ := List.cons.inj heq
          exact ⟨pre, e', rfl, he', fun q hq => hpre q (List.mem_cons_of_mem _ hq)⟩
      have ih' := ih (fun x hx => hsig x (List.mem_cons_of_mem _ hx))
        (fun x hx => hvalid x (List.mem_cons_of_mem _ hx)) hrest
      split_ifs with hskip
      · exact ih' _ _ _
      · obtain ⟨hends, hall⟩ := ih' (setupAfter op isSetup) (memblockAfter op e p) (n + 1)
        refine ⟨hends.cons (by simp [Site.op, hop, htest]), ?_⟩
        intro c hc
        rcases List.mem_cons.mp hc with rfl | hc
        · simp [Site.op, hop]
        · exact hall c hc

/-- Where the apprentice stops at the pair `m`, `a` after `n` exchanges: with the code of the pair,
unless `reginfo_is_eq` traps. -/
def StopsAt (n : ℕ) (m a : Site A) (p : Handler A (Leave × State A)) : Prop :=
  ∃ st : State A, st.completed.length = n ∧ st.signalCount = a.signalCount ∧
    p = if Compares m a ∧ compared m a = none then .halt st .fpe
      else .ret (.jump (refusal m a), st)

/-- The session has come to an i/o error: the apprentice reports one, or it still waits for bytes
when the master has ended. -/
def IoError (p : Handler A (Leave × State A)) : Prop :=
  p.Reading ∨ ∃ st, p = .ret (.jump .badIo, st)

/-- A side succeeds on `RES_END` only. -/
theorem exitCode_success {l : Leave} : exitCode l = .success ↔ l = .jump .resEnd := by
  cases l with
  | returned => simp [exitCode]
  | jump r => cases r <;> simp [exitCode]

theorem StopsAt.not_success {n : ℕ} {m a : Site A} {p : Handler A (Leave × State A)}
    (h : StopsAt n m a p) : ¬ ∃ l st, p = .ret (l, st) ∧ exitCode l = .success := by
  obtain ⟨st, -, -, rfl⟩ := h
  intro hsuccess
  obtain ⟨l, st', hret, hcode⟩ := hsuccess
  split_ifs at hret
  cases hret
  exact (refusal_ne m a).2.1 (by simpa using exitCode_success.mp hcode)

/-- Lists that agree pair by pair agree at every position. -/
theorem forall₂_at {R : Site A → Site A → Prop} {M₁ M₂ B₁ B₂ : List (Site A)} {m a : Site A}
    (h : List.Forall₂ R (M₁ ++ m :: M₂) (B₁ ++ a :: B₂)) (hlen : M₁.length = B₁.length) : R m a := by
  have hdrop := List.forall₂_drop_append _ _ _ h
  rw [← hlen, List.drop_left] at hdrop
  exact (List.forall₂_cons.mp hdrop).1

/-- After accepted records, a pair of which `P` holds, with what is left of the master's events. -/
def First (P : Site A → Site A → List (Site A) → Prop) (M B : List (Site A)) : Prop :=
  ∃ M₁ m M₂ B₁ a B₂, M = M₁ ++ m :: M₂ ∧ B = B₁ ++ a :: B₂ ∧ List.Forall₂ Accepts M₁ B₁ ∧ P m a M₂

section First

variable {P : Site A → Site A → List (Site A) → Prop} {m a : Site A} {M B : List (Site A)}

theorem first_cons (h : Accepts m a) (hP : ¬ P m a M) : First P (m :: M) (a :: B) ↔ First P M B := by
  constructor
  · intro hfirst
    obtain ⟨M₁, m', M₂, B₁, a', B₂, hM, hB, hall, hp⟩ := hfirst
    cases hall with
    | nil =>
      obtain ⟨rfl, rfl⟩ := List.cons.inj hM
      obtain ⟨rfl, rfl⟩ := List.cons.inj hB
      exact absurd hp hP
    | @cons _ _ M₁ B₁ _ hall =>
      exact ⟨M₁, m', M₂, B₁, a', B₂, (List.cons.inj hM).2, (List.cons.inj hB).2, hall, hp⟩
  · intro hfirst
    obtain ⟨M₁, m', M₂, B₁, a', B₂, rfl, rfl, hall, hp⟩ := hfirst
    exact ⟨m :: M₁, m', M₂, a :: B₁, a', B₂, rfl, rfl, .cons h hall, hp⟩

/-- At a pair that is not accepted, the rest of the session is decided. -/
theorem first_head (h : ¬ Accepts m a) : First P (m :: M) (a :: B) ↔ P m a M := by
  constructor
  · intro hfirst
    obtain ⟨M₁, m', M₂, B₁, a', B₂, hM, hB, hall, hp⟩ := hfirst
    cases hall with
    | nil =>
      obtain ⟨rfl, rfl⟩ := List.cons.inj hM
      obtain ⟨rfl, rfl⟩ := List.cons.inj hB
      exact hp
    | cons hpass _ =>
      obtain ⟨rfl, -⟩ := List.cons.inj hM
      obtain ⟨rfl, -⟩ := List.cons.inj hB
      exact absurd hpass h
  · exact fun hp => ⟨[], m, M, [], a, B, rfl, rfl, .nil, hp⟩

theorem not_first_nil (h : M = [] ∨ B = []) : ¬ First P M B := by
  intro hfirst
  obtain ⟨M₁, m, M₂, B₁, a, B₂, rfl, rfl, -⟩ := hfirst
  simp at h

end First

/-- A record is reached that is sent in another length than its header announces. -/
def Distortion (M B : List (Site A)) : Prop := First (fun m _ _ => m.distorts = true) M B

theorem not_distortion_of_native (hA : A.swapsHeader = false) (M B : List (Site A)) :
    ¬ Distortion M B := by
  intro hdist
  obtain ⟨-, m, -, -, -, -, -, -, -, hm⟩ := hdist
  rw [m.distorts_of_native hA] at hm
  cases hm

/-- All pairs agree, or the apprentice stops at the first that does not. -/
def Decided (n : ℕ) (M B : List (Site A)) (p : Handler A (Leave × State A)) : Prop :=
  (List.Forall₂ Passes M B ∧ ∃ st, p = .ret (.jump .resEnd, st)) ∨
  ∃ M₁ m M₂ B₁ a B₂, M = M₁ ++ m :: M₂ ∧ B = B₁ ++ a :: B₂ ∧ List.Forall₂ Passes M₁ B₁ ∧
    ¬ Passes m a ∧ StopsAt (n + M₁.length) m a p

theorem Decided.cons {n : ℕ} {m a : Site A} {M B : List (Site A)} {p : Handler A (Leave × State A)}
    (h : Decided (n + 1) M B p) (hpass : Passes m a) : Decided n (m :: M) (a :: B) p := by
  rcases h with ⟨hall, hend⟩ | hstop
  · exact .inl ⟨.cons hpass hall, hend⟩
  · obtain ⟨M₁, m', M₂, B₁, a', B₂, rfl, rfl, hall, hne, hstop⟩ := hstop
    refine .inr ⟨m :: M₁, m', M₂, a :: B₁, a', B₂, rfl, rfl, .cons hpass hall, hne, ?_⟩
    rwa [List.length_cons, ← Nat.add_assoc, Nat.add_right_comm]

/-- The course of a session between test images: it is decided, or it comes to an i/o error over a record
in another length. -/
theorem Course.decided {E : Ending A} {n : ℕ} {M B : List (Site A)} (h : Course E n M B)
    {p : Handler A (Leave × State A)} (hp : E.Reached p) (hM : EndsTest M) (hB : EndsTest B)
    (hready : ∀ m ∈ M, ¬ m.Missing)
    (hset : ∀ a ∈ B, a.op.isSome = true ∧ ¬ a.Missing) :
    ¬ Distortion M B ∧ Decided n M B p ∨ Distortion M B ∧ IoError p := by
  induction h with
  | @step n m a M B haccepts htest _ ih =>
    have hpass := haccepts.2
    have hmtest : m.op ≠ some .testend := by rw [hpass.1]; exact htest
    rw [Distortion, first_cons haccepts (by simp [haccepts.1])]
    exact (ih (hM.tail hmtest) (hB.tail htest) (fun m hm => hready m (List.mem_cons_of_mem _ hm))
      (fun a ha => hset a (List.mem_cons_of_mem _ ha))).imp_left fun h => ⟨h.1, h.2.cons hpass⟩
  | @accepted n m a M st haccepts htest hE =>
    subst hE
    have hpass := haccepts.2
    obtain rfl := hM.eq_singleton (by rw [hpass.1]; exact htest)
    rw [Distortion, first_cons haccepts (by simp [haccepts.1])]
    exact .inl ⟨not_first_nil (.inl rfl), .inl ⟨.cons hpass .nil, st, hp⟩⟩
  | @refused n m a M B st hmiss hdist hdeath hne hE hcomp hcount =>
    subst hE
    rw [Distortion, first_head fun h => hne h.2]
    refine .inl ⟨by simp [hdist], .inr ⟨[], m, M, [], a, B, rfl, rfl, .nil, hne, st, by simpa using hcomp,
      hcount, ?_⟩⟩
    rw [if_neg]
    · exact hp
    · intro htrap
      unfold death at hdeath
      split_ifs at hdeath
  | @died n m a M B d st hmiss hdist hdeath hE hcomp hcount =>
    subst hE
    obtain ⟨hvalid, hmem⟩ := hset a List.mem_cons_self
    have htrap : (Compares m a ∧ compared m a = none) ∧ d = .fpe := by
      unfold death at hdeath
      split_ifs at hdeath with h₁ h₂ h₃
      · simp [h₁] at hvalid
      · exact ⟨h₂, by simpa using hdeath.symm⟩
      · exact absurd h₃.2 hmem
    obtain ⟨htrap, rfl⟩ := htrap
    have hne : ¬ Passes m a := fun h => by
      simpa [htrap.2] using h.2.1 htrap.1.2.1 htrap.1.2.2
    rw [Distortion, first_head fun h => hne h.2]
    refine .inl ⟨by simp [hdist], .inr ⟨[], m, M, [], a, B, rfl, rfl, .nil, hne, st, by simpa using hcomp,
      hcount, ?_⟩⟩
    rw [if_pos htrap]
    exact hp
  | cut hmiss _ => exact absurd hmiss (hready _ List.mem_cons_self)
  | starved hmiss _ => exact absurd hmiss (hready _ List.mem_cons_self)
  | distorted _ hdist _ hE =>
    subst hE
    rw [Distortion, first_head fun h => by simp [h.1] at hdist]
    exact .inr ⟨hdist, .inr ⟨_, hp⟩⟩
  | unwritten _ hdist _ hE =>
    subst hE
    rw [Distortion, first_head fun h => by simp [h.1] at hdist]
    exact .inr ⟨hdist, .inl hp⟩
  | exhausted hnil _ =>
    rcases hnil with rfl | rfl
    · exact absurd rfl hM.ne_nil
    · exact absurd rfl hB.ne_nil

theorem IoError.not_success {p : Handler A (Leave × State A)} (h : IoError p) :
    ¬ ∃ l st, p = .ret (l, st) ∧ exitCode l = .success := by
  intro hsuccess
  obtain ⟨l, st, rfl, hcode⟩ := hsuccess
  rw [exitCode_success.mp hcode] at h
  rcases h with hreading | ⟨st', hret⟩
  · exact hreading.elim
  · cases hret

theorem IoError.not_stopsAt {p : Handler A (Leave × State A)} (h : IoError p) (n : ℕ) (m a : Site A) :
    ¬ StopsAt n m a p := by
  intro hstop
  obtain ⟨st, -, -, hp⟩ := hstop
  rcases h with hreading | ⟨st', hret⟩
  · split_ifs at hp <;> exact (hp ▸ hreading).elim
  · rw [hret] at hp
    split_ifs at hp
    simp only [Process.ret.injEq, Prod.mk.injEq, Leave.jump.injEq] at hp
    exact refusal_ne_badIo m a hp.1.symm

/-- **The verdict of the apprentice** on two lists of kept events, where a run has ended. -/
structure VerdictOn (M B : List (Site A)) (p : Handler A (Leave × State A)) : Prop where
  success_iff : (∃ l st, p = .ret (l, st) ∧ exitCode l = .success) ↔ List.Forall₂ Passes M B
  stops : ¬ List.Forall₂ Passes M B →
    ∃ M₁ m M₂ B₁ a B₂, M = M₁ ++ m :: M₂ ∧ B = B₁ ++ a :: B₂ ∧ List.Forall₂ Passes M₁ B₁ ∧
      ¬ Passes m a ∧ StopsAt M₁.length m a p

theorem Decided.verdictOn {M B : List (Site A)} {p : Handler A (Leave × State A)}
    (h : Decided 0 M B p) : VerdictOn M B p := by
  rcases h with ⟨hall, st, rfl⟩ | hstop
  · exact ⟨⟨fun _ => hall, fun _ => ⟨_, _, rfl, rfl⟩⟩, fun h => absurd hall h⟩
  · obtain ⟨M₁, m, M₂, B₁, a, B₂, hM, hB, hpre, hne, hstop⟩ := hstop
    rw [Nat.zero_add] at hstop
    have hfail : ¬ List.Forall₂ Passes M B := by
      rw [hM, hB]
      exact fun hall => hne (forall₂_at hall hpre.length_eq)
    exact ⟨⟨fun h => absurd h hstop.not_success, fun h => absurd h hfail⟩,
      fun _ => ⟨M₁, m, M₂, B₁, a, B₂, hM, hB, hpre, hne, hstop⟩⟩

theorem IoError.not_verdictOn {p : Handler A (Leave × State A)} (h : IoError p) (M B : List (Site A)) :
    ¬ VerdictOn M B p := by
  intro hverdict
  by_cases hall : List.Forall₂ Passes M B
  · exact h.not_success (hverdict.success_iff.mpr hall)
  · obtain ⟨M₁, m, -, -, a, -, -, -, -, -, hstop⟩ := hverdict.stops hall
    exact h.not_stopsAt _ m a hstop

/-- Every run of the two programs comes to an end, and there the apprentice has succeeded if and only if the
kept events agree pair by pair; otherwise it has stopped at the first pair that does not agree, with the code
of that pair. -/
def Verdict (es fs : List (Event A)) : Prop :=
  (session es fs).Stops ∧ ∀ hist S, Run (session es fs) hist S → S.Final →
    VerdictOn (kept es false none 0) (kept fs false none 0) S.right

/-- The verdict on two test images, by the records that are reached. -/
theorem verdict_iff_not_distortion {es fs : List (Event A)} (hes : TestImage es) (hfs : TestImage fs) :
    Verdict es fs ↔ ¬ Distortion (kept es false none 0) (kept fs false none 0) := by
  obtain ⟨E, lf, rf, hset, hreach, -, hcourse⟩ := session_course es fs
  obtain ⟨hends, hvalid⟩ := kept_testImage hes.sigill hes.valid hes.testend false none 0
  obtain ⟨hends', hvalid'⟩ := kept_testImage hfs.sigill hfs.valid hfs.testend false none 0
  have hready' := kept_ready fs false none 0 hfs.ready
  have hsent : sent es = kept es false none 0 := List.filter_eq_self.mpr hvalid
  rw [hsent] at hcourse
  have hfinal : ∀ {hist S}, Run (session es fs) hist S → S.Final → S.right = rf := by
    intro hist S hrun hfinal
    obtain ⟨turn, -, hphase⟩ := hset.phase hrun
    exact (hphase.final hfinal).2
  rcases hcourse.decided hreach hends hends' (kept_ready es false none 0 hes.ready)
    (fun a ha => ⟨hvalid' a ha, hready' a ha⟩) with ⟨hno, hdecided⟩ | ⟨hdist, hio⟩
  · refine iff_of_true ⟨hset.stops, fun hist S hrun hend => ?_⟩ hno
    rw [hfinal hrun hend]
    exact hdecided.verdictOn
  · refine iff_of_false (fun hverdict => ?_) (not_not.mpr hdist)
    have hstart : Run (session es fs) [] (session es fs) := .nil
    obtain ⟨hist, S, hrun, hend⟩ := hstart.exists_final hset.stops
    rw [← hfinal hrun hend] at hio
    exact hio.not_verdictOn _ _ (hverdict.2 hist S hrun hend)

/-- **The apprentice's verdict is sound and complete** for the events of any two test images, unless a record
is reached that is sent in another length than announced.  Only a build that swaps the header sends one. -/
theorem apprentice_verdict_iff {es fs : List (Event A)} (hes : TestImage es) (hfs : TestImage fs) :
    (A.swapsHeader = false → Verdict es fs) ∧
      (Verdict es fs ↔ ¬ Distortion (kept es false none 0) (kept fs false none 0)) := by
  have hiff := verdict_iff_not_distortion hes hfs
  exact ⟨fun hA => hiff.mpr (not_distortion_of_native hA _ _), hiff⟩

/-- A record agrees with itself. -/
theorem Ppc64.reginfoIsEq_self (b : Build) (n : ℕ) (r : Reginfo b.width 0) :
    (port b).reginfoIsEq n r r = some (true, r) :=
  reginfoIsEq_of_same b.options n ⟨fun _ => rfl, rfl, rfl, rfl, rfl, rfl, rfl, rfl, rfl⟩

/-- Two images at the same place that ask for the same op agree, also if one had more signals. -/
theorem passes_request (op : RisuOp) {isSetup : Bool} {p : Option (Ppc64.port Ppc64.native32).Ptr}
    (hp : op = .comparemem → p.isSome = true) (n n' : ℕ) :
    Passes (⟨Ppc64.request op, isSetup, p, n⟩ : Site _) ⟨Ppc64.request op, isSetup, p, n'⟩ := by
  refine ⟨by rw [Site.op, Site.op], fun _ _ => ?_, fun hop => ⟨?_, by rw [Site.block, Site.block]⟩⟩
  · have hcmp := Ppc64.reginfoIsEq_self Ppc64.native32 n' (Ppc64.native32.reginfoInit (Ppc64.request op).uc)
    exact congrArg (Option.map Prod.fst) hcmp
  · rw [Site.op, Ppc64.request_op, Option.some.injEq] at hop
    rw [Site.block, Option.isSome_map, hp hop]

/-- Illegal instructions that are passed over, in different numbers on the two sides, do no harm. -/
theorem passes_blockTest (j k : ℕ) :
    List.Forall₂ Passes (kept (blockTest j) false none 0) (kept (blockTest k) false none 0) := by
  rw [kept_blockTest, kept_blockTest]
  exact .cons (passes_request .setmemblock nofun _ _) (.cons (passes_request .setupbegin nofun _ _)
    (.cons (passes_request .setupend nofun _ _) (.cons (passes_request .comparemem (fun _ => rfl) _ _)
      (.cons (passes_request .compare nofun _ _) (.cons (passes_request .testend nofun _ _) .nil)))))

theorem testImage_blockTest (k : ℕ) : TestImage (blockTest k) := by
  have hrequest : ∀ e ∈ blockTest k, ∃ op, e = Ppc64.request op := by
    simp only [blockTest, List.mem_cons, List.mem_append, List.mem_replicate, List.not_mem_nil, or_false]
    rintro e (rfl | rfl | ⟨-, rfl⟩ | rfl | rfl | rfl | rfl) <;> exact ⟨_, rfl⟩
  refine ⟨fun e he => ?_, fun e he => ?_,
    ⟨Ppc64.request .setmemblock :: Ppc64.request .setupbegin ::
      (List.replicate k (Ppc64.request .sigill) ++ [Ppc64.request .setupend,
        Ppc64.request .comparemem, Ppc64.request .compare]), Ppc64.request .testend, ?_,
      Ppc64.request_op .testend, ?_⟩, memblockReady_blockTest k⟩
  · obtain ⟨op, rfl⟩ := hrequest e he
    rfl
  · obtain ⟨op, rfl⟩ := hrequest e he
    rw [Ppc64.request_op]
    rfl
  · simp [blockTest]
  · simp only [List.mem_cons, List.mem_append, List.mem_replicate, List.not_mem_nil, or_false]
    rintro e (rfl | rfl | ⟨-, rfl⟩ | rfl | rfl | rfl) <;> rw [Ppc64.request_op] <;> decide

/-- A test with a window of setup, one illegal instruction in it on the one side and two on the other, and a
memory block: the apprentice succeeds. -/
theorem apprentice_verdict_blockTest :
    TestImage (blockTest 1) ∧ TestImage (blockTest 2) ∧
    ∀ hist S, Run (session (blockTest 1) (blockTest 2)) hist S → S.Final →
      ∃ l st, S.right = .ret (l, st) ∧ exitCode l = .success := by
  have hverdict := (apprentice_verdict_iff (testImage_blockTest 1) (testImage_blockTest 2)).1
    Ppc64.native32_swapsHeader
  exact ⟨testImage_blockTest 1, testImage_blockTest 2, fun hist S hrun hfinal =>
    (hverdict.2 hist S hrun hfinal).success_iff.mpr (passes_blockTest 1 2)⟩

/-- An image that does nothing but end the test. -/
theorem testImage_testend {e : Event A} (hsig : e.sig = .sigill)
    (hop : RisuOp.ofCode e.code = some .testend) : TestImage [e] := by
  refine ⟨?_, ?_, ⟨[], e, rfl, hop, by simp⟩, by simp [memblockReady, hop]⟩
  · intro e' he
    rwa [List.mem_singleton.mp he]
  · intro e' he
    rw [List.mem_singleton.mp he, hop]
    rfl

/-- The build that swaps headers sends the registers of a `TESTEND` in another length than announced, and two
images that agree do not succeed. -/
theorem not_apprentice_verdict_testend : ¬ ∀ es fs : List (Event (Ppc64.port Ppc64.dppc0)),
    TestImage es → TestImage fs → Verdict es fs := by
  intro hall
  obtain ⟨hkept, -⟩ := Ppc64.sameValues_request .testend
  have himage : TestImage [Ppc64.requestLittle .testend] :=
    testImage_testend rfl (Ppc64.requestLittle_op .testend)
  refine (verdict_iff_not_distortion himage himage).mp (hall _ _ himage himage) ?_
  rw [hkept]
  refine ⟨[], _, [], [], _, [], rfl, rfl, .nil, ?_⟩
  have hop : Site.op ⟨Ppc64.requestLittle .testend, false, none, 1⟩ = some .testend :=
    Ppc64.requestLittle_op .testend
  show Site.distorts _ = true
  rw [Site.distorts, hop]
  decide

/-! ### What a successful master says -/

/-- The apprentice refuses the record of `m` and answers: the pair does not agree and the apprentice
survives the comparison, a block was announced and something else arrives in its place, or a payload
arrives in another length than announced. -/
def Refuses (m a : Site A) (M : List (Site A)) : Prop :=
  if m.Missing then M ≠ []
  else if m.distorts then m.writtenSize < 2 ^ 31
  else death m a = none ∧ ¬ Passes m a

/-- Somewhere after accepted records, the apprentice refuses one. -/
def Refusal (M B : List (Site A)) : Prop :=
  ∃ M₁ m M₂ B₁ a B₂, M = M₁ ++ m :: M₂ ∧ B = B₁ ++ a :: B₂ ∧ List.Forall₂ Accepts M₁ B₁ ∧
    Refuses m a M₂

theorem Site.Missing.not_passes {m : Site A} (h : m.Missing) (a : Site A) : ¬ Passes m a := by
  intro hpass
  obtain ⟨hsome, hblock⟩ := hpass.2.2 (hpass.1 ▸ h.1)
  rw [← hblock, Site.block, h.2] at hsome
  cases hsome

/-- An accepted record is not refused. -/
theorem Accepts.not_refuses {m a : Site A} (h : Accepts m a) (M : List (Site A)) :
    ¬ Refuses m a M := by
  obtain ⟨hdist, hpass⟩ := h
  unfold Refuses
  split_ifs with hmiss hd
  · exact absurd hpass (hmiss.not_passes a)
  · simp [hdist] at hd
  · exact fun hr => hr.2 hpass

theorem refusal_cons {m a : Site A} {M B : List (Site A)} (h : Accepts m a) :
    Refusal (m :: M) (a :: B) ↔ Refusal M B :=
  first_cons h (h.not_refuses M)

theorem refusal_head {m a : Site A} {M B : List (Site A)} (h : ¬ Accepts m a) :
    Refusal (m :: M) (a :: B) ↔ Refuses m a M :=
  first_head h

theorem not_refusal_nil {M B : List (Site A)} (h : M = [] ∨ B = []) : ¬ Refusal M B :=
  not_first_nil h

theorem answered_badIo {st : State A} {p : Handler A (Leave × State A)}
    (hp : (Ending.left (.jump .badIo) st).Reached p) :
    (Ending.left (.jump .badIo) st).Answered ∧ ¬ ∃ st', p = .ret (.jump .resEnd, st') := by
  refine ⟨nofun, ?_⟩
  intro hended
  obtain ⟨st', hret⟩ := hended
  rw [show p = _ from hp] at hret
  cases hret

/-- The apprentice answers without success exactly where it refuses a record. -/
theorem Course.refusal_iff {E : Ending A} {n : ℕ} {M B : List (Site A)} (h : Course E n M B)
    {p : Handler A (Leave × State A)} (hp : E.Reached p) (hM : ∀ m ∈ M, m.op.isSome = true) :
    Refusal M B ↔ E.Answered ∧ ¬ ∃ st, p = .ret (.jump .resEnd, st) := by
  induction h with
  | step haccepts _ _ ih =>
    rw [refusal_cons haccepts]
    exact ih fun m hm => hM m (List.mem_cons_of_mem _ hm)
  | @accepted n m a M st haccepts _ hE =>
    subst hE
    rw [refusal_cons haccepts]
    exact ⟨fun h => absurd h (not_refusal_nil (.inr rfl)), fun h => absurd ⟨st, hp⟩ h.2⟩
  | @refused n m a M B st hmiss hdist hdeath hne hE _ _ =>
    subst hE
    rw [refusal_head fun h => hne h.2, Refuses, if_neg hmiss, if_neg (by simp [hdist])]
    refine ⟨fun _ => ⟨(refusal_ne m a).2.2, ?_⟩, fun _ => ⟨hdeath, hne⟩⟩
    intro hended
    obtain ⟨st', hret⟩ := hended
    rw [show p = _ from hp] at hret
    simp only [Process.ret.injEq, Prod.mk.injEq, Leave.jump.injEq] at hret
    exact (refusal_ne m a).2.1 hret.1
  | @died n m a M B d st hmiss hdist hdeath hE _ _ =>
    subst hE
    have hne : ¬ Passes m a := fun h => by
      simp [h.death_eq (hM m List.mem_cons_self)] at hdeath
    rw [refusal_head fun h => hne h.2, Refuses, if_neg hmiss, if_neg (by simp [hdist]), hdeath]
    exact ⟨fun h => (nomatch h.1), fun h => h.1.elim⟩
  | @cut n m m' a M B st hmiss hE =>
    subst hE
    rw [refusal_head fun h => hmiss.not_passes a h.2, Refuses, if_pos hmiss]
    exact ⟨fun _ => answered_badIo hp, fun _ => by simp⟩
  | @starved n m a B hmiss hE =>
    subst hE
    rw [refusal_head fun h => hmiss.not_passes a h.2, Refuses, if_pos hmiss]
    exact ⟨fun h => absurd rfl h, fun h => h.1.elim⟩
  | @distorted n m a M B st hmiss hdist hfits hE =>
    subst hE
    rw [refusal_head fun h => by simp [h.1] at hdist, Refuses, if_neg hmiss, if_pos hdist]
    exact ⟨fun _ => answered_badIo hp, fun _ => hfits⟩
  | @unwritten n m a M B hmiss hdist hfits hE =>
    subst hE
    rw [refusal_head fun h => by simp [h.1] at hdist, Refuses, if_neg hmiss, if_pos hdist]
    exact ⟨fun h => absurd h hfits, fun h => h.1.elim⟩
  | exhausted hnil hans => exact ⟨fun h => absurd h (not_refusal_nil hnil), fun h => absurd h.1 hans⟩

/-- A refused record ends in a successful master and an unsuccessful apprentice. -/
theorem session_refused {es fs : List (Event A)}
    (h : Refusal (sent es) (kept fs false none 0)) :
    ∃ hist S, Run (session es fs) hist S ∧
      (∃ l s, S.left = .ret (l, s) ∧ exitCode l = .success) ∧
      ¬ ∃ l t, S.right = .ret (l, t) ∧ exitCode l = .success := by
  obtain ⟨E, lf, rf, hset, hreach, hans, hcourse⟩ := session_course es fs
  have hsent : ∀ m ∈ sent es, m.op.isSome = true := fun m hm => (List.mem_filter.mp hm).2
  obtain ⟨hanswered, hno⟩ := (hcourse.refusal_iff hreach hsent).mp h
  have hstart : Run (session es fs) [] (session es fs) := .nil
  obtain ⟨hist, S, hrun, hfinal⟩ := hstart.exists_final hset.stops
  obtain ⟨turn, -, hphase⟩ := hset.phase hrun
  obtain ⟨hl, hr⟩ := hphase.final hfinal
  obtain ⟨s, hs⟩ := hans.mpr hanswered
  refine ⟨hist, S, hrun, ⟨_, s, hl.trans hs, rfl⟩, ?_⟩
  intro hsuccess
  obtain ⟨l, t, ht, hcode⟩ := hsuccess
  rw [exitCode_success.mp hcode] at ht
  exact hno ⟨t, hr.symm.trans ht⟩

/-- **A successful master means a successful apprentice exactly when no record is refused.**  The
apprentice answers every refusal with `RES_END`, which the master takes for the end of the test. -/
theorem master_success_iff (es fs : List (Event A)) :
    (∀ hist S, Run (session es fs) hist S →
      (∃ l s, S.left = .ret (l, s) ∧ exitCode l = .success) →
      ∃ l t, S.right = .ret (l, t) ∧ exitCode l = .success) ↔
    ¬ Refusal (sent es) (kept fs false none 0) := by
  constructor
  · intro hall href
    obtain ⟨hist, S, hrun, hsuccess, hno⟩ := session_refused href
    exact hno (hall hist S hrun hsuccess)
  · intro hno hist S hrun hsuccess
    obtain ⟨l, s, hl, hcode⟩ := hsuccess
    obtain ⟨E, lf, rf, hset, hreach, hans, hcourse⟩ := session_course es fs
    have hsent : ∀ m ∈ sent es, m.op.isSome = true := fun m hm => (List.mem_filter.mp hm).2
    rw [hcourse.refusal_iff hreach hsent] at hno
    obtain ⟨turn, -, hphase⟩ := hset.phase hrun
    obtain ⟨hlf, hrf⟩ := hphase.left_done (by rw [hl]; trivial)
    rw [exitCode_success.mp hcode] at hl
    have hanswered := hans.mp ⟨s, hlf.symm.trans hl⟩
    obtain ⟨t, ht⟩ := not_not.mp fun h => hno ⟨hanswered, h⟩
    exact ⟨_, t, hrf.trans ht, rfl⟩

theorem sent_request (op : RisuOp) :
    sent [Ppc64.request op] = [⟨Ppc64.request op, false, none, 1⟩] := by
  rw [sent, kept_request, List.filter_cons_of_pos (by simp [Site.op, Ppc64.request_op])]
  rfl

/-- Where all records are accepted, none is refused. -/
theorem not_refusal_of_accepts {M B : List (Site A)} (h : List.Forall₂ Accepts M B) : ¬ Refusal M B := by
  induction h with
  | nil => exact not_refusal_nil (.inl rfl)
  | cons haccepts _ ih => rwa [refusal_cons haccepts]

/-- Where the two sides agree, a successful master means a successful apprentice. -/
theorem master_success_blockTest :
    ¬ Refusal (sent (blockTest 1)) (kept (blockTest 2) false none 0) ∧
    ∀ hist S, Run (session (blockTest 1) (blockTest 2)) hist S →
      (∃ l s, S.left = .ret (l, s) ∧ exitCode l = .success) →
      ∃ l t, S.right = .ret (l, t) ∧ exitCode l = .success := by
  have hsent : sent (blockTest 1) = kept (blockTest 1) false none 0 := by
    have himage := testImage_blockTest 1
    exact List.filter_eq_self.mpr (kept_testImage himage.sigill himage.valid himage.testend false none 0).2
  have hno : ¬ Refusal (sent (blockTest 1)) (kept (blockTest 2) false none 0) := by
    rw [hsent]
    exact not_refusal_of_accepts ((passes_blockTest 1 2).imp fun m a hpass =>
      ⟨m.distorts_of_native Ppc64.native32_swapsHeader, hpass⟩)
  exact ⟨hno, (master_success_iff _ _).mpr hno⟩

/-- A master at `SETUPBEGIN` and an apprentice at `SETUPEND`: the master prints `done` and succeeds,
the apprentice has found a mismatch. -/
theorem master_success_mismatch :
    ¬ ∀ (es fs : List (Event (Ppc64.port Ppc64.native32))) (hist : List Act)
      (S : Duplex (State (Ppc64.port Ppc64.native32)) (State (Ppc64.port Ppc64.native32)) Death
        (Leave × State (Ppc64.port Ppc64.native32)) (Leave × State (Ppc64.port Ppc64.native32))),
      Run (session es fs) hist S →
      (∃ l s, S.left = .ret (l, s) ∧ exitCode l = .success) →
      ∃ l t, S.right = .ret (l, t) ∧ exitCode l = .success := by
  intro hall
  have href : Refusal (sent [Ppc64.request .setupbegin])
      (kept [Ppc64.request .setupend] false none 0) := by
    rw [sent_request, kept_request]
    refine ⟨[], _, [], [], _, [], rfl, rfl, .nil, ?_⟩
    simp [Refuses, Site.Missing, Site.distorts_of_native Ppc64.native32_swapsHeader, death,
      Compares, Passes, Site.isRegister, Site.op, Ppc64.request_op, RisuOp.isRegister]
  obtain ⟨hist, S, hrun, hsuccess, hno⟩ := session_refused href
  exact hno (hall _ _ hist S hrun hsuccess)

end Risu
