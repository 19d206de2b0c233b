import Risu.Session

/-!
# Errors leave an exchange without effect

Whatever bytes arrive and however many bytes a write accepts: a handler function that returns a code
other than `RES_OK` has changed neither the signal context nor `memblock`, `arch_memblock` and
`is_setup`, and no context is handed back to the image.

* `Filled s s'` — `s'` differs from `s` only in what a record is read into; this is all that
  `recv_register_info` can do (`recvRegisterInfo_fills`);
* `sendRecord_finishes` — `send_register_info` reaches its last `switch` or has only written;
* `error_atomic` — the result, for both functions and both handlers.
-/

namespace Risu

open Lib Lib.Process

variable {A : Arch}

/-! ### I/O in one state -/

section io

variable {P : State A → Prop} {s : State A}

theorem everywhere_readBuffer (trace : Bool) (hs : P s) (n : ℕ) :
    (readBuffer trace s n).Everywhere P fun _ => True := by
  cases trace with
  | true => exact ⟨hs, fun _ => trivial⟩
  | false => exact everywhere_recvDataPkt hs n

theorem everywhere_writeBuffer (trace : Bool) (hs : P s) (bs : List Byte) :
    (writeBuffer trace s bs).Everywhere P fun _ => True := by
  cases trace with
  | true => exact ⟨hs, fun _ => trivial⟩
  | false => exact everywhere_sendDataPkt hs bs

theorem everywhere_respond (trace : Bool) (hs : P s) (r : RisuResult) :
    (respond trace s r).Everywhere P fun _ => True := by
  cases trace with
  | true => trivial
  | false => exact everywhere_sendResponseByte hs r

end io

/-! ### Reading a record -/

/-- Only the buffers a record is read into differ. -/
def Filled (s s' : State A) : Prop :=
  ∃ header ri block, s' = { s with header := header, riMaster := ri, otherMemblock := block }

namespace Filled

variable {s s' : State A}

theorem refl (s : State A) : Filled s s := ⟨s.header, s.riMaster, s.otherMemblock, rfl⟩

theorem setHeader (h : Filled s s') (header : Header A) : Filled s (s'.setHeader header) := by
  obtain ⟨_, ri, block, rfl⟩ := h
  exact ⟨header, ri, block, rfl⟩

theorem reginfoReceived (h : Filled s s') (got : RisuResult × List Byte) :
    Filled s (Risu.reginfoReceived s' got).2 := by
  obtain ⟨header, _, block, rfl⟩ := h
  rw [Risu.reginfoReceived]
  simp only
  split_ifs <;> exact ⟨header, _, block, rfl⟩

theorem memblockReceived (h : Filled s s') (got : RisuResult × List Byte) :
    Filled s (Risu.memblockReceived s' got).2 := by
  obtain ⟨header, ri, _, rfl⟩ := h
  exact ⟨header, ri, _, rfl⟩

theorem mark (h : Filled s s') : s'.mark = s.mark := by
  obtain ⟨_, _, _, rfl⟩ := h
  rfl

theorem signalCount (h : Filled s s') : s'.signalCount = s.signalCount := by
  obtain ⟨_, _, _, rfl⟩ := h
  rfl

theorem riApprentice (h : Filled s s') : s'.riApprentice = s.riApprentice := by
  obtain ⟨_, _, _, rfl⟩ := h
  rfl

end Filled

/-- The payload of a record is read behind an acknowledgement. -/
theorem readPayload_fills (trace : Bool) {s w : State A} (hw : Filled s w) (n : ℕ)
    {store : RisuResult × List Byte → RisuResult × State A}
    (hstore : ∀ got, Filled s (store got).2) :
    (respond trace w .ok >>= fun _ => readBuffer trace w n >>= fun got => .ret (store got)).Everywhere
      (Filled s) fun r => Filled s r.2 := by
  refine (everywhere_respond trace hw _).bind fun _ _ => ?_
  exact (everywhere_readBuffer trace hw n).bind fun got _ => hstore got

theorem recvBody_fills (trace : Bool) {s w : State A} (hw : Filled s w) :
    (recvBody trace w).Everywhere (Filled s) fun r => Filled s r.2 := by
  rw [recvBody]
  by_cases hmagic : w.header.magic ≠ risuMagic
  · rw [if_pos hmagic]
    exact hw
  · rw [if_neg hmagic]
    cases RisuOp.ofCode w.header.risuOp with
    | none => exact hw
    | some op =>
      cases op with
      | compare | testend | sigill =>
        simp only
        split_ifs
        · exact hw
        · exact readPayload_fills trace hw _ hw.reginfoReceived
      | comparemem =>
        simp only
        split_ifs
        · exact hw
        · exact readPayload_fills trace hw _ hw.memblockReceived
      | setmemblock | getmemblock | setupbegin | setupend => exact hw

/-- **Reading a record fills the buffers it is read into**, and does nothing else. -/
theorem recvRegisterInfo_fills (trace : Bool) (s : State A) :
    (recvRegisterInfo trace s).Everywhere (Filled s) fun r => Filled s r.2 := by
  refine (everywhere_readBuffer trace (Filled.refl s) _).bind fun got _ => ?_
  unfold headerReceived
  simp only
  split_ifs
  · exact (Filled.refl s).setHeader _
  · exact recvBody_fills trace ((Filled.refl s).setHeader _)

/-! ### Writing a record -/

/-- `send_register_info` has reached its last `switch`, or returns the error of a write. -/
theorem sendRecord_finishes (trace : Bool) (op : RisuOp) (s : State A) (e : Event A) :
    (sendRecord trace op s e).Everywhere (fun w => w = s) fun r =>
      r = masterFinish op s e ∨ r.1 ≠ .ok ∧ r.2 = (e.uc, s) := by
  have hwrite := fun bs => everywhere_writeBuffer (P := fun w => w = s) trace rfl bs
  rw [sendRecord]
  refine (hwrite _).bind fun res _ => ?_
  split_ifs with hres
  · exact .inr ⟨hres, rfl⟩
  · cases masterExtra op s e with
    | none => exact .inl rfl
    | some extra =>
      refine (hwrite _).bind fun res _ => ?_
      split_ifs with hres
      · exact .inr ⟨hres, rfl⟩
      · exact .inl rfl

/-- The only code the last `switch` returns besides `RES_OK` is the end of the test. -/
theorem masterFinish_error {op : RisuOp} {s : State A} {e : Event A}
    (h : (masterFinish op s e).1 ≠ .ok) : (masterFinish op s e).2 = (e.uc, s) := by
  cases op with
  | testend => rfl
  | sigill | compare | setmemblock | getmemblock | comparemem | setupbegin | setupend =>
    exact absurd rfl h

/-! ### Errors -/

/-- What an exchange is about is the same in both states, and no context was handed back. -/
structure Untouched (s s' : State A) : Prop where
  memblock : s'.memblock = s.memblock
  archMemblock : s'.archMemblock = s.archMemblock
  isSetup : s'.isSetup = s.isSetup
  contexts : s'.contexts = s.contexts

namespace Untouched

variable {s s' : State A}

theorem countSigill (ri : A.Reginfo) (c : BitVec 32) :
    Untouched s (State.countSigill { s with riMaster := ri } c) ∧
      Untouched s (State.countSigill { s with riApprentice := ri } c) := by
  unfold State.countSigill
  split_ifs <;> exact ⟨⟨rfl, rfl, rfl, rfl⟩, ⟨rfl, rfl, rfl, rfl⟩⟩

theorem filled {s'' : State A} (h : Untouched s s') (hf : Filled s' s'') : Untouched s s'' := by
  obtain ⟨_, _, _, rfl⟩ := hf
  exact ⟨h.memblock, h.archMemblock, h.isSetup, h.contexts⟩

/-- On an error the handlers only note the pc. -/
theorem resume {e : Event A} {r : RisuResult × A.Ucontext × State A} (h : Untouched s r.2.2)
    (hr : r.1 ≠ .ok) : Untouched s (Risu.resume e r).2 := by
  rw [Risu.resume, if_neg hr]
  exact ⟨h.memblock, h.archMemblock, h.isSetup, h.contexts⟩

end Untouched

/-- The result of a handler function: if it is an error, nothing was touched. -/
def ErrorFree (s : State A) (e : Event A) (r : RisuResult × A.Ucontext × State A) : Prop :=
  r.1 ≠ .ok → r.2.1 = e.uc ∧ Untouched s r.2.2

theorem sendRegisterInfo_errors (trace : Bool) (s : State A) (e : Event A) :
    (sendRegisterInfo trace s e).Everywhere (fun _ => True) (ErrorFree s e) := by
  have hs := (Untouched.countSigill (s := s) (A.reginfoInit e.uc) e.code).1
  unfold sendRegisterInfo
  simp only
  generalize State.countSigill { s with riMaster := A.reginfoInit e.uc } e.code = u at hs ⊢
  split_ifs
  · exact fun h => absurd rfl h
  · cases RisuOp.ofCode e.code with
    | none => trivial
    | some op =>
      refine (sendRecord_finishes trace op (masterRecord op u e) e).mono (fun _ _ => trivial) ?_
      intro r hr hne
      have hr2 : r.2 = (e.uc, masterRecord op u e) := by
        rcases hr with rfl | hr
        · exact masterFinish_error hne
        · exact hr.2
      rw [hr2]
      exact ⟨rfl, hs.memblock, hs.archMemblock, hs.isSetup, hs.contexts⟩

/-- A refused record leaves the context and the state as they were. -/
theorem verdict_error {f : Event A} {u : State A} {v : RisuResult × A.Ucontext × State A}
    (h : verdict f u = .ok v) (hne : v.1 ≠ .ok) :
    v.2.1 = f.uc ∧ ∃ ri, v.2.2 = { u with riApprentice := ri } := by
  obtain ⟨op, w, -, hc, rfl⟩ := verdict_inv h
  have hw : w.1 ≠ .ok := fun hok => hne (by simp [noteCompleted, hok])
  obtain ⟨ri, hok | ⟨-, -, huc, hstate⟩⟩ := compareRecord_cases hc
  · exact absurd hok.1 hw
  · rw [noteCompleted, if_neg hw]
    exact ⟨huc, ri, hstate⟩

theorem recvAndCompareRegisterInfo_errors (trace : Bool) (s : State A) (e : Event A) :
    (recvAndCompareRegisterInfo trace s e).Everywhere (fun _ => True) (ErrorFree s e) := by
  have hs := (Untouched.countSigill (s := s) (A.reginfoInit e.uc) e.code).2
  have hfinish : ∀ v : RisuResult × A.Ucontext × State A, ErrorFree s e v →
      (finishCompare trace v).Everywhere (fun _ => True) (ErrorFree s e) := fun v hv =>
    (everywhere_respond trace trivial _).bind fun _ _ => hv
  unfold recvAndCompareRegisterInfo
  simp only
  split_ifs
  · exact fun h => absurd rfl h
  · refine ((recvRegisterInfo_fills trace _).mono (fun _ _ => trivial) fun _ => id).bind ?_
    intro r hr
    have hr := hs.filled hr
    rw [judgeRecord]
    split_ifs
    · exact hfinish _ fun _ => ⟨rfl, hr⟩
    · cases hv : verdict e r.2 with
      | error d => trivial
      | ok v =>
        refine hfinish v fun hne => ?_
        obtain ⟨huc, ri, hstate⟩ := verdict_error hv hne
        rw [hstate]
        exact ⟨huc, hr.memblock, hr.archMemblock, hr.isSetup, hr.contexts⟩

/-- **Errors are atomic.**  For every port that is an `Arch`, every context, every prior state and
whatever the calls of `read` and `write` return, in both modes: if `send_register_info` or
`recv_and_compare_register_info` returns a code other than `RES_OK`, the signal context, `memblock`,
`arch_memblock` and `is_setup` are what they were on entry; and the handler around it hands no context
back to the image, so that the pc is not advanced. -/
theorem error_atomic (trace : Bool) (s : State A) (e : Event A) :
    (sendRegisterInfo trace s e).Everywhere (fun _ => True)
      (fun r => r.1 ≠ .ok → r.2.1 = e.uc ∧ Untouched s r.2.2) ∧
    (recvAndCompareRegisterInfo trace s e).Everywhere (fun _ => True)
      (fun r => r.1 ≠ .ok → r.2.1 = e.uc ∧ Untouched s r.2.2) ∧
    (masterSigill trace s e).Everywhere (fun _ => True) (fun r => r.1 ≠ .ok → Untouched s r.2) ∧
    (apprenticeSigill trace s e).Everywhere (fun _ => True)
      (fun r => r.1 ≠ .ok → Untouched s r.2) := by
  have hcounted : Untouched s { s with signalCount := s.signalCount + 1 } := ⟨rfl, rfl, rfl, rfl⟩
  have hresume : ∀ r, ErrorFree { s with signalCount := s.signalCount + 1 } e r →
      (resume e r).1 ≠ .ok → Untouched s (resume e r).2 := by
    intro r hr hne
    rw [resume_fst] at hne
    obtain ⟨-, hu⟩ := hr hne
    have hu' : Untouched s r.2.2 := ⟨hu.memblock, hu.archMemblock, hu.isSetup, hu.contexts⟩
    exact hu'.resume hne
  refine ⟨sendRegisterInfo_errors trace s e, recvAndCompareRegisterInfo_errors trace s e, ?_, ?_⟩
  · rw [masterSigill]
    cases e.sig with
    | sigbus => exact fun hne => hcounted.resume (by simp)
    | sigill => exact (sendRegisterInfo_errors trace _ e).bind fun r hr => hresume r hr
  · rw [apprenticeSigill]
    cases e.sig with
    | sigbus => exact fun hne => hcounted.resume (by simp)
    | sigill => exact (recvAndCompareRegisterInfo_errors trace _ e).bind fun r hr => hresume r hr

end Risu
