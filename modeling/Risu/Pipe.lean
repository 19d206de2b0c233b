import Risu.Lib.Pipe
import Risu.Atomic
import Risu.Receive
import Risu.Ppc64.Port

/-!
# Playback from a pipe

With `-t -` the apprentice reads its trace from standard input, which may be a pipe.  `read_buffer`
calls `read` once, and takes fewer bytes than it asked for as the end of the trace: a record that does
not arrive in one piece ends the playback with `RES_BAD_IO`.  `playback_pipe_iff` says exactly for
which ways of cutting the trace the playback is not disturbed.

* `Truncated` — the trace ends in the middle of the record in front;
* `Undisturbed` — along the playback no read is cut, or the first cut is in a record that is not whole
  in the trace either;
* `playbackEnd` — the result code and the event at which it is returned.
-/

namespace Risu

open Lib Lib.Process

variable {A : Arch}

/-! ### Records that are not whole -/

/-- The trace ends inside the header in front, or inside the payload that this header announces. -/
def Truncated (A : Arch) (bs : List Byte) : Prop :=
  bs.length < A.sizeofHeader ∨ ∃ op, (readHeader A bs).magic = risuMagic ∧
    RisuOp.ofCode (readHeader A bs).risuOp = some op ∧
    sizeAllowed A op (readHeader A bs).size.toNat = true ∧
    bs.length < A.sizeofHeader + (readHeader A bs).size.toNat

theorem sizeCode_ne_badIo (op : RisuOp) : sizeCode op ≠ .badIo := by
  cases op <;> decide

/-- Playing back a file, `RES_BAD_IO` is the code of a record that is not whole. -/
theorem firstViolated_badIo (bs : List Byte) :
    firstViolated (headerRules (readHeader A bs) bs) = .badIo ↔ Truncated A bs := by
  rw [Truncated]
  by_cases hlen : A.sizeofHeader ≤ bs.length
  · rw [or_iff_right (by omega)]
    by_cases hmagic : (readHeader A bs).magic = risuMagic
    · cases hop : RisuOp.ofCode (readHeader A bs).risuOp with
      | none => simp [headerRules, firstViolated, hlen, hmagic, hop]
      | some op =>
        have hcode := sizeCode_ne_badIo op
        simp only [headerRules, hop, firstViolated, sizeRules, hlen, hmagic, decide_true, if_true,
          Option.isSome_some, Option.elim_some, List.cons_append, List.nil_append,
          decide_eq_true_eq, Option.some.injEq, true_and, exists_eq_left']
        by_cases hsize : sizeAllowed A op (readHeader A bs).size.toNat = true
        · rw [if_pos hsize]
          by_cases hpay : A.sizeofHeader + (readHeader A bs).size.toNat ≤ bs.length
          · rw [if_pos hpay]
            refine iff_of_false ?_ fun h => absurd h.2 (by omega)
            split_ifs <;> decide
          · rw [if_neg hpay]
            exact iff_of_true rfl ⟨hsize, by omega⟩
        · rw [if_neg hsize]
          exact iff_of_false hcode fun h => hsize h.1
    · simp [headerRules, firstViolated, hlen, hmagic]
  · simp [headerRules, firstViolated, hlen, not_le.mp hlen]

/-! ### A cut inside a record -/

/-- `read_buffer` does not wait for the rest of a payload. -/
theorem recvBody_brittle (s : State A) :
    (recvBody true s).Brittle fun r => r.1 = .badIo ∧ r.2.signalCount = s.signalCount := by
  have hread : ∀ (n : ℕ) (store : RisuResult × List Byte → RisuResult × State A),
      (∀ got, (store (.badIo, got)).1 = .badIo ∧
        (store (.badIo, got)).2.signalCount = s.signalCount) →
      (respond true s .ok >>= fun _ => readBuffer true s n >>= fun got => .ret (store got)).Brittle
        fun r => r.1 = .badIo ∧ r.2.signalCount = s.signalCount := by
    intro n store hstore
    refine ⟨fun got hgot => ⟨store (.badIo, got), ?_, hstore got⟩, fun got => trivial⟩
    show Process.ret (store (if got.length = n then .ok else .badIo, got)) = _
    rw [if_neg (by omega)]
  rw [recvBody]
  by_cases hmagic : s.header.magic ≠ risuMagic
  · rw [if_pos hmagic]
    trivial
  · rw [if_neg hmagic]
    cases RisuOp.ofCode s.header.risuOp with
    | none => trivial
    | some op =>
      cases op with
      | compare | testend | sigill =>
        simp only
        split_ifs
        · trivial
        · exact hread _ (reginfoReceived s) fun got => by simp [reginfoReceived]
      | comparemem =>
        simp only
        split_ifs
        · trivial
        · exact hread _ (memblockReceived s) fun got => ⟨rfl, rfl⟩
      | setmemblock | getmemblock | setupbegin | setupend => trivial

theorem recvRegisterInfo_brittle (s : State A) :
    (recvRegisterInfo true s).Brittle fun r => r.1 = .badIo ∧ r.2.signalCount = s.signalCount := by
  have hnext : ∀ got : List Byte, (headerReceived true s
      (if got.length = A.sizeofHeader then .ok else .badIo, got)).Brittle
      fun r => r.1 = .badIo ∧ r.2.signalCount = s.signalCount := by
    intro got
    by_cases hlen : got.length = A.sizeofHeader
    · rw [if_pos hlen, headerReceived, if_neg (by simp)]
      exact recvBody_brittle (s.setHeader (headerArchToHost (s.header.store got)))
    · rw [if_neg hlen, headerReceived, if_pos (by simp)]
      trivial
  refine ⟨fun got hgot => ⟨(.badIo, s.setHeader (s.header.store got)), ?_, rfl, rfl⟩, hnext⟩
  show headerReceived true s (if got.length = A.sizeofHeader then .ok else .badIo, got) = _
  rw [if_neg (by omega), headerReceived, if_pos (by simp)]

/-- The handler gives up over a record that comes in pieces. -/
theorem apprenticeSigill_brittle (s : State A) (e : Event A) :
    (apprenticeSigill true s e).Brittle
      fun r => r.1 = .badIo ∧ r.2.signalCount = s.signalCount + 1 := by
  have hjudge : ∀ r : RisuResult × State A, (judgeRecord true e r).Brittle
      fun v => v.1 = .badIo ∧ v.2.2.signalCount = s.signalCount + 1 := by
    intro r
    rw [judgeRecord]
    split_ifs
    · trivial
    · cases verdict e r.2 with
      | error d => trivial
      | ok v => trivial
  rw [apprenticeSigill]
  cases e.sig with
  | sigbus => trivial
  | sigill =>
    have hcompare : (recvAndCompareRegisterInfo true
        { s with signalCount := s.signalCount + 1 } e).Brittle
        fun v => v.1 = .badIo ∧ v.2.2.signalCount = s.signalCount + 1 := by
      rw [recvAndCompareRegisterInfo]
      simp only
      split_ifs
      · trivial
      · refine (recvRegisterInfo_brittle _).bind ?_ hjudge
        intro r hr
        refine ⟨(r.1, e.uc, r.2), ?_, hr.1, ?_⟩
        · rw [judgeRecord, if_pos (by simp [hr.1])]
          rfl
        · rw [hr.2, countSigill_signalCount]
    refine hcompare.bind ?_ fun v => trivial
    intro v hv
    exact ⟨resume e v, rfl, by rw [resume_fst, hv.1], by rw [resume_signalCount, hv.2]⟩

/-! ### Playback from a file -/

theorem compareRecord_ne_badIo {op : RisuOp} {s : State A} {e : Event A}
    {v : RisuResult × A.Ucontext × State A} (h : compareRecord op s e = .ok v) : v.1 ≠ .badIo := by
  have hregister : ∀ u : State A, (registerVerdict op u e).1 ≠ .badIo := by
    intro u
    rw [registerVerdict]
    split_ifs <;> simp
  cases op with
  | compare | testend | sigill =>
    simp only [compareRecord] at h
    split_ifs at h
    · cases h
      simp
    · cases h
      exact hregister s
    · split at h
      · cases h
      · cases h
        simp
      · cases h
        exact hregister _
  | setmemblock | getmemblock | setupbegin | setupend =>
    simp only [compareRecord] at h
    split_ifs at h <;> cases h <;> simp
  | comparemem =>
    simp only [compareRecord] at h
    split_ifs at h
    · cases h
      simp
    · split at h
      · cases h
      · split_ifs at h <;> cases h <;> simp

theorem verdict_ne_badIo {f : Event A} {u : State A} {v : RisuResult × A.Ucontext × State A}
    (h : verdict f u = .ok v) : v.1 ≠ .badIo := by
  obtain ⟨op, w, -, hc, rfl⟩ := verdict_inv h
  have hw := compareRecord_ne_badIo hc
  rw [noteCompleted]
  split_ifs <;> exact hw

/-- The handler counts the event, whatever happens in it. -/
theorem apprenticeSigill_counts (trace : Bool) (s : State A) (e : Event A) :
    (apprenticeSigill trace s e).Everywhere (fun w => w.signalCount = s.signalCount + 1)
      (fun r => r.2.signalCount = s.signalCount + 1) := by
  rw [apprenticeSigill]
  cases e.sig with
  | sigbus => exact resume_signalCount _ _
  | sigill =>
    have hfinish : ∀ v : RisuResult × A.Ucontext × State A,
        v.2.2.signalCount = s.signalCount + 1 →
        (finishCompare trace v).Everywhere (fun w => w.signalCount = s.signalCount + 1)
          (fun r => r.2.2.signalCount = s.signalCount + 1) := fun v hv =>
      (everywhere_respond trace hv _).bind fun _ _ => hv
    have hcompare : (recvAndCompareRegisterInfo trace
        { s with signalCount := s.signalCount + 1 } e).Everywhere
        (fun w => w.signalCount = s.signalCount + 1)
        (fun r => r.2.2.signalCount = s.signalCount + 1) := by
      rw [recvAndCompareRegisterInfo]
      simp only
      split_ifs
      · exact countSigill_signalCount _ _
      · refine ((recvRegisterInfo_fills trace _).mono ?_ ?_).bind (Q := fun r => r.2.signalCount =
          s.signalCount + 1) ?_
        · exact fun w hw => hw.signalCount.trans (countSigill_signalCount _ _)
        · exact fun r hr => hr.signalCount.trans (countSigill_signalCount _ _)
        · intro r hr
          rw [judgeRecord]
          split_ifs
          · exact hfinish _ hr
          · cases hv : verdict e r.2 with
            | error d => exact hr
            | ok v => exact hfinish v ((verdict_signalCount hv).trans hr)
    exact hcompare.bind fun r hr => (resume_signalCount _ _).trans hr

/-- A handler that reads a record: on a file, it returns `RES_BAD_IO` exactly when the record is not
whole. -/
theorem fileRun_apprenticeSigill_badIo (s : State A) {e : Event A} {inp : List Byte} {c : Cuts}
    (hcut : ¬ (apprenticeSigill true s e).Uncut inp c) :
    (∃ st, (fileRun (apprenticeSigill true s e) inp).last = .ret (.badIo, st)) ↔
      Truncated A inp := by
  rw [← firstViolated_badIo]
  rw [apprenticeSigill] at hcut ⊢
  cases hsig : e.sig with
  | sigbus =>
    rw [hsig] at hcut
    exact absurd trivial hcut
  | sigill =>
    rw [hsig] at hcut
    simp only [recvAndCompareRegisterInfo] at hcut ⊢
    split_ifs at hcut ⊢ with hskip
    · exact absurd trivial hcut
    · obtain ⟨rest, st, hrun⟩ := fileRun_recvRegisterInfo_rules (A := A) (State.countSigill { s with
        signalCount := s.signalCount + 1, riApprentice := A.reginfoInit e.uc } e.code) inp
      rw [bind_assoc, fileRun_bind_last hrun]
      rw [judgeRecord]
      by_cases hok : firstViolated (headerRules (readHeader A inp) inp) = .ok
      · rw [if_neg (by simpa using hok), hok]
        refine iff_of_false ?_ (by decide)
        cases hv : verdict e st with
        | error d => exact fun h => by cases h.choose_spec
        | ok v =>
          intro h
          obtain ⟨st', hst⟩ := h
          have hlast : (Process.ret (resume e v) : Handler A (RisuResult × State A)) =
              .ret (.badIo, st') := hst
          have hfst : (resume e v).1 = .badIo := by rw [Process.ret.inj hlast]
          rw [resume_fst] at hfst
          exact verdict_ne_badIo hv hfst
      · rw [if_pos hok]
        refine ⟨?_, ?_⟩
        · intro h
          obtain ⟨st', hst⟩ := h
          have hlast : (Process.ret (resume e (firstViolated (headerRules (readHeader A inp) inp), e.uc, st)) :
              Handler A (RisuResult × State A)) = .ret (.badIo, st') := hst
          have hfst := congrArg Prod.fst (Process.ret.inj hlast)
          rwa [resume_fst] at hfst
        · intro h
          refine ⟨(resume e (.badIo, e.uc, st)).2, ?_⟩
          rw [h]
          rfl

/-! ### The whole playback -/

/-- The code with which an image is left or the way it died, and the number of the event. -/
def playbackEnd : Handler A (Leave × State A) → Option ((Leave ⊕ Death) × ℕ)
  | .ret r => some (.inl r.1, r.2.signalCount)
  | .halt s d => some (.inr d, s.signalCount)
  | _ => none

/-- Along the playback of a trace from a file: each record arrives in one piece from the pipe, too,
or it is not whole in the trace. -/
def Undisturbed : List (Event A) → State A → List Byte → Cuts → Prop
  | [], _, _, _ => True
  | e :: es, s, inp, c =>
    let p := apprenticeSigill true s e
    (p.Uncut inp c ∧ ∀ st, (fileRun p inp).last = .ret (.ok, st) →
        Undisturbed es st (fileRun p inp).rest (pipeRun p inp c).cuts) ∨
      ¬ p.Uncut inp c ∧ Truncated A inp

/-- The image goes on to later events. -/
theorem apprentice_counts (trace : Bool) (es : List (Event A)) (s : State A) :
    (apprentice trace es s).Everywhere (fun w => s.signalCount < w.signalCount)
      (fun r => r.1 = .returned ∨ s.signalCount < r.2.signalCount) := by
  induction es generalizing s with
  | nil => exact .inl rfl
  | cons e es ih =>
    refine ((apprenticeSigill_counts trace s e).mono ?_ fun _ => id).bind ?_
    · intro w hw
      omega
    · intro r hr
      split_ifs
      · refine (ih r.2).mono ?_ ?_
        · intro w hw
          omega
        · intro r' hr'
          exact hr'.imp_right fun hlt => by omega
      · refine .inr ?_
        show s.signalCount < r.2.signalCount
        omega

/-- Where a cut ends the playback, the playback of the file ends in the same way exactly if the
record is not whole. -/
theorem playbackEnd_cut {s : State A} {e : Event A} {inp : List Byte} {c : Cuts}
    (hcut : ¬ (apprenticeSigill true s e).Uncut inp c) (es : List (Event A)) :
    playbackEnd (fileRun (apprentice true (e :: es) s) inp).last =
      some (.inl (.jump .badIo), s.signalCount + 1) ↔ Truncated A inp := by
  have hcounts := (apprenticeSigill_counts true s e).fileRun_last inp
  rw [← fileRun_apprenticeSigill_badIo s hcut, apprentice]
  rcases fileRun_last_cases (apprenticeSigill true s e) inp with ⟨⟨r, st⟩, hlast⟩ | ⟨w, d, hlast⟩
  · rw [hlast] at hcounts
    have hst : st.signalCount = s.signalCount + 1 := hcounts
    rw [fileRun_bind_ret hlast, hlast]
    by_cases hok : r = .ok
    · subst hok
      refine iff_of_false ?_ (by simp)
      have hlater := (apprentice_counts true es st).fileRun_last
        (fileRun (apprenticeSigill true s e) inp).rest
      simp only [if_true]
      rcases fileRun_last_cases (apprentice true es st)
        (fileRun (apprenticeSigill true s e) inp).rest with ⟨⟨l, st'⟩, hlast'⟩ | ⟨w, d, hlast'⟩
      · rw [hlast'] at hlater ⊢
        have hlater : l = .returned ∨ st.signalCount < st'.signalCount := hlater
        intro heq
        simp only [playbackEnd, Option.some.injEq, Prod.mk.injEq, Sum.inl.injEq] at heq
        rcases hlater with hret | hlt
        · rw [hret] at heq
          cases heq.1
        · omega
      · rw [hlast']
        simp [playbackEnd]
    · rw [if_neg hok]
      simp [playbackEnd, hst]
  · rw [fileRun_bind_halt hlast, hlast]
    simp [playbackEnd]

/-- **When playback does not depend on the pipe.**  For every trace, every sequence of events and
every way the pipe is cut into reads, the apprentice returns the same result at the same event as
from a file if and only if the playback is not disturbed. -/
theorem playback_pipe_iff (es : List (Event A)) (s : State A) (inp : List Byte) (c : Cuts) :
    playbackEnd (pipeRun (apprentice true es s) inp c).last =
      playbackEnd (fileRun (apprentice true es s) inp).last ↔ Undisturbed es s inp c := by
  induction es generalizing s inp c with
  | nil => exact iff_of_true rfl trivial
  | cons e es ih =>
    by_cases hcut : (apprenticeSigill true s e).Uncut inp c
    · obtain ⟨hrest, hsame⟩ := hcut.pipeRun_eq
      have hdist : Undisturbed (e :: es) s inp c ↔
          ∀ st, (fileRun (apprenticeSigill true s e) inp).last = .ret (.ok, st) →
            Undisturbed es st (fileRun (apprenticeSigill true s e) inp).rest
              (pipeRun (apprenticeSigill true s e) inp c).cuts := by
        simp only [Undisturbed, hcut, true_and, not_true_eq_false, false_and, or_false]
      rw [hdist, apprentice]
      rcases fileRun_last_cases (apprenticeSigill true s e) inp with ⟨⟨r, st⟩, hlast⟩ | ⟨w, d, hlast⟩
      · rw [fileRun_bind_ret hlast, pipeRun_bind (hsame.trans hlast), hrest, hlast]
        by_cases hok : r = .ok
        · subst hok
          simpa using ih st _ _
        · simp only [if_neg hok]
          refine iff_of_true rfl ?_
          intro st' heq
          cases heq
          exact absurd rfl hok
      · rw [fileRun_bind_halt hlast, pipeRun_bind_halt (hsame.trans hlast), hlast]
        refine iff_of_true rfl ?_
        intro st heq
        cases heq
    · obtain ⟨⟨r, st⟩, hlast, hbad, hcount⟩ := (apprenticeSigill_brittle s e).of_cut hcut
      have hend : playbackEnd (pipeRun (apprentice true (e :: es) s) inp c).last =
          some (.inl (.jump .badIo), s.signalCount + 1) := by
        rw [apprentice, pipeRun_bind hlast]
        simp only at hbad hcount
        rw [hbad, if_neg (by simp)]
        simp [pipeRun, playbackEnd, hcount]
      rw [hend, eq_comm, playbackEnd_cut hcut]
      simp [Undisturbed, hcut]

/-- The record of a `SETUPBEGIN` at pc 0, written by a big-endian host with 32-bit pointers. -/
def setupbeginRecord : List Byte := [0x52, 0x49, 0x53, 0x55, 0, 0, 0, 0, 0, 0, 0, 5, 0, 0, 0, 0]

/-- A record that comes byte by byte ends the playback, although it is accepted from a file. -/
theorem playback_pipe_setupbegin :
    playbackEnd (pipeRun (apprentice true [Ppc64.request .setupbegin] (.start _)) setupbeginRecord
      (.const 1 Nat.one_pos)).last ≠
    playbackEnd (fileRun (apprentice true [Ppc64.request .setupbegin] (.start _))
      setupbeginRecord).last := by
  have hpipe : playbackEnd (pipeRun (apprentice true [Ppc64.request .setupbegin] (.start _))
      setupbeginRecord (.const 1 Nat.one_pos)).last = some (.inl (.jump .badIo), 1) := rfl
  have hfile : playbackEnd (fileRun (apprentice true [Ppc64.request .setupbegin] (.start _))
      setupbeginRecord).last = some (.inl .returned, 1) := rfl
  rw [hpipe, hfile]
  decide

end Risu
