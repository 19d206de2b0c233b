import Risu.Lib.Loop
import Risu.Comms

/-!
# The receive loops and `errno` (`comms.c`)

`recv_bytes` and `recv_and_discard_bytes` retry a read that returns nothing when `errno` is `EINTR`.
A read at the end of the stream returns 0 and leaves `errno` alone, so that the loops go on forever
if the last call before it was interrupted.  The two loops are modelled over the outcomes of their
reads, for every `int` as the length, and `receive_ends_iff` says exactly when they end.

* `recvStep` — one round of either loop; `dump` tells which;
* `delivered`, `lastErrno` — what a sequence of outcomes delivers, and the `errno` it leaves;
* `Overruns` — a count past the end of `dumpbuf`;
* `recvBytes_refined` — when the loop ends, it ends as `recvBytes` does.
-/

namespace Risu

open Lib Lib.Process

/-! ### The loops -/

def eintr : ℕ := 4

/-- What a call of `read` can come to before the end of the stream: a count, which fits an `int`, and
the `errno` it leaves, or `-1` with `EINTR`. -/
inductive ReadOutcome where
  | got (n : ℕ) (pos : 0 < n) (fits : n < 2 ^ 31) (errno : ℕ)
  | interrupted

structure Receiving where
  pktlen : BitVec 32
  errno : ℕ
  coming : List ReadOutcome

inductive ReceiveEnd where
  | returned
  | exited
  /-- More was stored in `dumpbuf` than it holds. -/
  | overrun
  deriving DecidableEq

/-- The number of bytes a read asks for: the `int` length as a `size_t`, or at most `sizeof(dumpbuf)`
as the comparison of two `int` has it. -/
def readSize (dump : Bool) (pktlen : BitVec 32) : ℕ :=
  let len := if dump && !pktlen.slt 64 then 64 else pktlen
  (len.signExtend 64).toNat

def recvStep (dump : Bool) (s : Receiving) : Progress Receiving ReceiveEnd :=
  if s.pktlen = 0 then .done .returned
  else
    match s.coming with
    | [] =>
      -- end of file: 0 bytes, and `errno` as it was
      if s.errno = eintr then .going s else .done .exited
    | .interrupted :: os => .going { s with errno := eintr, coming := os }
    | .got n _ _ errno :: os =>
      let i := min n (readSize dump s.pktlen)
      if dump = true ∧ 64 < i then .done .overrun
      else .going ⟨s.pktlen - BitVec.ofNat 32 i, errno, os⟩

/-! ### What the outcomes say -/

/-- The bytes a count takes off the length. -/
def taken (dump : Bool) (n : ℕ) : ℕ := if dump then min n 64 else n

def delivered (dump : Bool) : List ReadOutcome → ℕ
  | [] => 0
  | .got n _ _ _ :: os => taken dump n + delivered dump os
  | .interrupted :: os => delivered dump os

/-- `errno` at the end of the stream. -/
def lastErrno : ℕ → List ReadOutcome → ℕ
  | errno, [] => errno
  | _, .got _ _ _ errno :: os => lastErrno errno os
  | _, .interrupted :: os => lastErrno eintr os

/-- While the length is negative as an `int`, a count is larger than `dumpbuf`. -/
def Overruns : List ReadOutcome → ℕ → Prop
  | [], _ => False
  | .got n _ _ _ :: os, len => 2 ^ 31 ≤ len ∧ (64 < n ∨ Overruns os (len - n))
  | .interrupted :: os, len => Overruns os len

theorem Overruns.negative {os : List ReadOutcome} {len : ℕ} (h : Overruns os len) :
    2 ^ 31 ≤ len := by
  induction os with
  | nil => exact h.elim
  | cons o os ih =>
    cases o with
    | got n pos fits errno => exact h.1
    | interrupted => exact ih h

/-! ### One round -/

theorem readSize_negative (dump : Bool) {pktlen : BitVec 32} (h : 2 ^ 31 ≤ pktlen.toNat) :
    2 ^ 31 ≤ readSize dump pktlen := by
  have hmsb : pktlen.msb = true := by
    rw [BitVec.msb_eq_decide]
    simpa using h
  have hslt : pktlen.slt 64 = true := by
    rw [BitVec.slt_iff_toInt_lt, BitVec.toInt_eq_toNat_cond, if_neg (by omega)]
    have := pktlen.isLt
    have h64 : (64 : BitVec 32).toInt = 64 := by decide
    omega
  have hlen : (if dump && !pktlen.slt 64 then 64 else pktlen) = pktlen := by
    rw [hslt, Bool.not_true, Bool.and_false]
    rfl
  have hlt := pktlen.isLt
  rw [readSize, hlen, BitVec.toNat_signExtend, hmsb]
  simp only [if_true, BitVec.toNat_setWidth]
  omega

theorem readSize_nonneg (dump : Bool) {pktlen : BitVec 32} (h : pktlen.toNat < 2 ^ 31) :
    readSize dump pktlen = taken dump pktlen.toNat := by
  have hslt : pktlen.slt 64 = true ↔ pktlen.toNat < 64 := by
    have h64 : (64 : BitVec 32).toInt = 64 := by decide
    rw [BitVec.slt_iff_toInt_lt, BitVec.toInt_eq_toNat_of_lt (by omega), h64]
    omega
  have hmsb : ∀ v : BitVec 32, v.toNat < 2 ^ 31 → (v.signExtend 64).toNat = v.toNat := by
    intro v hv
    have hfalse : v.msb = false := by
      rw [BitVec.msb_eq_decide]
      simpa using hv
    rw [BitVec.toNat_signExtend, hfalse]
    simp
    omega
  unfold readSize taken
  cases dump with
  | false => simpa using hmsb pktlen h
  | true =>
    by_cases hlt : pktlen.toNat < 64
    · simp only [hslt.mpr hlt, Bool.not_true, Bool.and_false, Bool.false_eq_true, if_false, if_true]
      rw [hmsb pktlen h]
      omega
    · have hfalse : pktlen.slt 64 = false := by
        rw [← Bool.not_eq_true, hslt]
        exact hlt
      simp only [hfalse, Bool.not_false, Bool.and_true, if_true]
      have h64 : ((64 : BitVec 32).signExtend 64).toNat = 64 := by decide
      omega

theorem recvStep_zero (dump : Bool) (errno : ℕ) (os : List ReadOutcome) :
    recvStep dump ⟨0, errno, os⟩ = .done .returned := rfl

theorem recvStep_eof (dump : Bool) {pktlen : BitVec 32} (hlen : pktlen ≠ 0) (errno : ℕ) :
    recvStep dump ⟨pktlen, errno, []⟩ =
      if errno = eintr then .going ⟨pktlen, errno, []⟩ else .done .exited := by
  simp only [recvStep, if_neg hlen]

theorem recvStep_interrupted (dump : Bool) {pktlen : BitVec 32} (hlen : pktlen ≠ 0) (errno : ℕ)
    (os : List ReadOutcome) :
    recvStep dump ⟨pktlen, errno, .interrupted :: os⟩ = .going ⟨pktlen, eintr, os⟩ := by
  simp only [recvStep, if_neg hlen]

/-- Before the end of the stream a round takes what the count allows, or overruns `dumpbuf`. -/
theorem recvStep_got (dump : Bool) {pktlen : BitVec 32} (hlen : pktlen ≠ 0) (errno : ℕ) {n : ℕ}
    (pos : 0 < n) (fits : n < 2 ^ 31) (errno' : ℕ) (os : List ReadOutcome) :
    (dump = true ∧ 2 ^ 31 ≤ pktlen.toNat ∧ 64 < n ∧
      recvStep dump ⟨pktlen, errno, .got n pos fits errno' :: os⟩ = .done .overrun) ∨
    (¬ (dump = true ∧ 2 ^ 31 ≤ pktlen.toNat ∧ 64 < n) ∧ ∃ pktlen' : BitVec 32,
      recvStep dump ⟨pktlen, errno, .got n pos fits errno' :: os⟩ = .going ⟨pktlen', errno', os⟩ ∧
        pktlen'.toNat = pktlen.toNat - taken dump n) := by
  have hpos : 0 < pktlen.toNat := Nat.pos_of_ne_zero fun h => hlen (BitVec.eq_of_toNat_eq h)
  have hsub : ∀ i, i ≤ pktlen.toNat → (pktlen - BitVec.ofNat 32 i).toNat = pktlen.toNat - i := by
    intro i hi
    have hlt := pktlen.isLt
    have hofNat : (BitVec.ofNat 32 i).toNat = i := by
      rw [BitVec.toNat_ofNat]
      exact Nat.mod_eq_of_lt (by omega)
    rw [BitVec.toNat_sub, hofNat]
    omega
  simp only [recvStep, if_neg hlen]
  by_cases hneg : 2 ^ 31 ≤ pktlen.toNat
  · have hi : min n (readSize dump pktlen) = n := by
      have := readSize_negative dump hneg
      omega
    rw [hi]
    by_cases hover : dump = true ∧ 64 < n
    · rw [if_pos hover]
      exact .inl ⟨hover.1, hneg, hover.2, rfl⟩
    · rw [if_neg hover]
      refine .inr ⟨fun h => hover ⟨h.1, h.2.2⟩, _, rfl, ?_⟩
      have htaken : taken dump n = n := by
        cases dump with
        | false => rfl
        | true =>
          simp only [taken, if_true]
          simp only [true_and] at hover
          omega
      rw [hsub n (by omega), htaken]
  · have hread : readSize dump pktlen = taken dump pktlen.toNat :=
      readSize_nonneg dump (by omega)
    have hi : min n (readSize dump pktlen) = min (taken dump n) pktlen.toNat := by
      rw [hread]
      cases dump with
      | false => rfl
      | true =>
        simp only [taken, if_true]
        omega
    have hfits : ¬ (dump = true ∧ 64 < min n (readSize dump pktlen)) := by
      intro h
      rw [hi, h.1, taken, if_pos rfl] at h
      omega
    rw [if_neg hfits, hi]
    refine .inr ⟨fun h => hneg h.2.1, _, rfl, ?_⟩
    rw [hsub _ (Nat.min_le_right _ _)]
    omega

/-! ### Runs -/

/-- After a count that does not overrun `dumpbuf`, a later one overruns it as before. -/
theorem overruns_got {n : ℕ} {pos : 0 < n} {fits : n < 2 ^ 31} {errno : ℕ} {os : List ReadOutcome}
    {len : ℕ} (h : ¬ (2 ^ 31 ≤ len ∧ 64 < n)) :
    Overruns (.got n pos fits errno :: os) len ↔ Overruns os (len - taken true n) := by
  have htaken : taken true n = min n 64 := rfl
  by_cases hneg : 2 ^ 31 ≤ len
  · have hn : taken true n = n := by omega
    rw [hn, Overruns]
    refine ⟨?_, fun hover => ⟨hneg, .inr hover⟩⟩
    intro hover
    rcases hover.2 with hlarge | hover
    · exact absurd ⟨hneg, hlarge⟩ h
    · exact hover
  · refine ⟨fun hover => absurd hover.1 hneg, fun hover => ?_⟩
    have := hover.negative
    omega

/-- **How a loop ends.**  It returns when the outcomes deliver the length, and otherwise exits at the
end of the stream unless `errno` is `EINTR` there, provided that `dumpbuf` was not overrun. -/
theorem recvStep_ends (dump : Bool) (os : List ReadOutcome) (pktlen : BitVec 32) (errno : ℕ) :
    (EndsAs (recvStep dump) ⟨pktlen, errno, os⟩ .returned ↔
      ¬ (dump = true ∧ Overruns os pktlen.toNat) ∧ pktlen.toNat ≤ delivered dump os) ∧
    (EndsAs (recvStep dump) ⟨pktlen, errno, os⟩ .exited ↔
      ¬ (dump = true ∧ Overruns os pktlen.toNat) ∧ delivered dump os < pktlen.toNat ∧
        lastErrno errno os ≠ eintr) := by
  induction os generalizing pktlen errno with
  | nil =>
    by_cases hz : pktlen = 0
    · subst hz
      have hstep := recvStep_zero dump errno []
      rw [endsAs_done hstep, endsAs_done hstep]
      simp [Overruns]
    · have hpos : 0 < pktlen.toNat := Nat.pos_of_ne_zero fun h => hz (BitVec.eq_of_toNat_eq h)
      have hstep := recvStep_eof dump hz errno
      by_cases herr : errno = eintr
      · rw [if_pos herr] at hstep
        refine ⟨iff_of_false (not_endsAs_stuck hstep) ?_, iff_of_false (not_endsAs_stuck hstep) ?_⟩
        · exact fun h => absurd h.2 (by simpa [delivered] using hpos.ne')
        · exact fun h => h.2.2 herr
      · rw [if_neg herr] at hstep
        rw [endsAs_done hstep, endsAs_done hstep]
        simp [Overruns, delivered, lastErrno, herr, hpos, hpos.ne']
  | cons o os ih =>
    by_cases hz : pktlen = 0
    · subst hz
      have hno : ¬ Overruns (o :: os) 0 := fun h => absurd h.negative (by simp)
      have hstep := recvStep_zero dump errno (o :: os)
      rw [endsAs_done hstep, endsAs_done hstep]
      simp [hno]
    · cases o with
      | interrupted =>
        have hstep := recvStep_interrupted dump hz errno os
        rw [endsAs_going hstep, endsAs_going hstep]
        exact ih pktlen eintr
      | got n pos fits errno' =>
        rcases recvStep_got dump hz errno pos fits errno' os with
          ⟨hd, hneg, hn, hstep⟩ | ⟨hno, pktlen', hstep, hlen'⟩
        · have hover : Overruns (.got n pos fits errno' :: os) pktlen.toNat := ⟨hneg, .inl hn⟩
          rw [endsAs_done hstep, endsAs_done hstep]
          simp [hd, hover]
        · have hover : (dump = true ∧ Overruns (.got n pos fits errno' :: os) pktlen.toNat) ↔
              (dump = true ∧ Overruns os pktlen'.toNat) := by
            refine and_congr_right fun hd => ?_
            subst hd
            rw [hlen']
            exact overruns_got fun h => hno ⟨rfl, h⟩
          have hle : pktlen.toNat ≤ taken dump n + delivered dump os ↔
              pktlen'.toNat ≤ delivered dump os := by
            rw [hlen']
            omega
          rw [endsAs_going hstep, endsAs_going hstep, hover, delivered, lastErrno, ← not_le, hle,
            not_le]
          exact ih pktlen' errno'

/-- A receive loop returns, or reaches `exit(EXIT_FAILURE)`, after finitely many reads. -/
def Ends (dump : Bool) (s : Receiving) : Prop :=
  EndsAs (recvStep dump) s .returned ∨ EndsAs (recvStep dump) s .exited

theorem ends_iff (dump : Bool) (os : List ReadOutcome) (pktlen : BitVec 32) (errno : ℕ) :
    Ends dump ⟨pktlen, errno, os⟩ ↔ ¬ (dump = true ∧ Overruns os pktlen.toNat) ∧
      (pktlen.toNat ≤ delivered dump os ∨ lastErrno errno os ≠ eintr) := by
  obtain ⟨hret, hexit⟩ := recvStep_ends dump os pktlen errno
  rw [Ends, hret, hexit, ← and_or_left]
  refine and_congr_right fun _ => ?_
  by_cases hle : pktlen.toNat ≤ delivered dump os
  · simp [hle]
  · simp [hle, not_le.mp hle]

/-- **When the receive loops end.**  For every length, every sequence of outcomes and every `errno`,
with the end of the stream after them: `recv_bytes` ends if and only if the length is delivered, or
`errno` is not `EINTR` at the end of the stream; `recv_and_discard_bytes` if and only if in addition
no count overruns `dumpbuf`, which happens for a negative length only. -/
theorem receive_ends_iff (pktlen : BitVec 32) (errno : ℕ) (os : List ReadOutcome) :
    (Ends false ⟨pktlen, errno, os⟩ ↔
      pktlen.toNat ≤ delivered false os ∨ lastErrno errno os ≠ eintr) ∧
    (Ends true ⟨pktlen, errno, os⟩ ↔
      ¬ Overruns os pktlen.toNat ∧
        (pktlen.toNat ≤ delivered true os ∨ lastErrno errno os ≠ eintr)) := by
  refine ⟨?_, ?_⟩
  · simpa using ends_iff false os pktlen errno
  · simpa using ends_iff true os pktlen errno

/-- An interrupted read before the peer is gone: both loops go on forever. -/
theorem interrupted_forever :
    ¬ Ends false ⟨4, 0, [.interrupted]⟩ ∧ ¬ Ends true ⟨4, 0, [.interrupted]⟩ := by
  have herr : lastErrno 0 [.interrupted] = eintr := rfl
  rw [ends_iff, ends_iff, herr]
  simp [delivered]

/-! ### The loops without interruptions -/

/-- `recvBytes` on a file. -/
theorem fileRun_recvBytes {σ : Type} (s : σ) (n : ℕ) (bs : List Byte) :
    (fileRun (recvBytes s n) bs).last =
      if n ≤ bs.length then .ret (bs.take n) else .halt s .exitFailure := by
  have heof : ∀ (m : ℕ) (f : List Byte → Process σ Death (List Byte)), 0 < m →
      (fileRun (recvBytes s m >>= f) []).last = .halt s .exitFailure := by
    intro m f hm
    rw [recvBytes, dif_neg hm.ne', read_bind, fileRun_read, List.take_nil, dif_pos rfl]
    rfl
  by_cases hz : n = 0
  · subst hz
    rw [recvBytes]
    rfl
  rw [recvBytes, dif_neg hz, fileRun_read]
  by_cases hbs : bs = []
  · subst hbs
    rw [if_neg (by simpa using hz), List.take_nil, dif_pos rfl]
    rfl
  have hpos := List.length_pos_iff.mpr hbs
  have hne : bs.take n ≠ [] := List.ne_nil_of_length_pos (by rw [List.length_take]; omega)
  rw [dif_neg hne]
  by_cases hle : n ≤ bs.length
  · have hlen : n - (bs.take n).length = 0 := by
      rw [List.length_take]
      omega
    rw [if_pos hle, hlen, recvBytes, dif_pos rfl, ret_bind, List.append_nil]
    rfl
  · have hdrop : bs.drop n = [] := List.drop_eq_nil_of_le (by omega)
    have hlen : 0 < n - (bs.take n).length := by
      rw [List.length_take]
      omega
    rw [if_neg hle, hdrop]
    exact heof _ _ hlen

/-- **The loop refines `recvBytes`.**  For a length that is an `int`, and outcomes that deliver it or
do not end with an interruption, the loop returns exactly when `recvBytes` returns on a file with the
bytes delivered, and exits exactly when `recvBytes` exits. -/
theorem recvBytes_refined {σ : Type} (s : σ) {n : ℕ} (hn : n < 2 ^ 31) (errno : ℕ)
    (os : List ReadOutcome) (bs : List Byte) (hbs : bs.length = delivered false os) :
    (EndsAs (recvStep false) ⟨BitVec.ofNat 32 n, errno, os⟩ .returned ↔
      (fileRun (recvBytes s n) bs).last = .ret (bs.take n)) ∧
    (lastErrno errno os ≠ eintr →
      (EndsAs (recvStep false) ⟨BitVec.ofNat 32 n, errno, os⟩ .exited ↔
        (fileRun (recvBytes s n) bs).last = .halt s .exitFailure)) := by
  have hlen : (BitVec.ofNat 32 n).toNat = n := by
    rw [BitVec.toNat_ofNat]
    exact Nat.mod_eq_of_lt (by omega)
  obtain ⟨hret, hexit⟩ := recvStep_ends false os (BitVec.ofNat 32 n) errno
  rw [hret, hexit, hlen, fileRun_recvBytes, ← hbs]
  refine ⟨?_, fun herr => ?_⟩
  · by_cases hle : n ≤ bs.length
    · simp [hle]
    · simp [hle]
  · by_cases hle : n ≤ bs.length
    · simp [hle]
    · simp [hle, herr, not_le.mp hle]

end Risu
