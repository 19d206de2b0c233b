import Risu.Pairing

/-!
# What one call of `recv_and_compare_register_info` accepts

A record in front of the apprentice, framed as packets on the socket or plain in a trace file
(`Record.wire`), is received whole, and the call returns what the comparison of the pair says:
`recvAndCompare_ok_iff` gives the exact condition for `RES_OK`.
-/

namespace Risu

open Lib Lib.Process

variable {A : Arch}

/-- A record as it reaches the apprentice. -/
def Record.wire (r : Record A) : Bool → List Byte
  | true => r.bytes
  | false => frame r.header.bytes ++ r.payload.packet.elim [] frame

/-- The response to a record in a file is left out, and on the socket it is sent. -/
theorem fileRun_respond (trace : Bool) (s : State A) (res : RisuResult) (inp : List Byte) :
    ∃ out, fileRun (respond trace s res) inp = ⟨out, inp, .ret ()⟩ := by
  cases trace with
  | true => exact ⟨[], rfl⟩
  | false => exact ⟨[res.toByte], rfl⟩

/-- A record is received whole, in either mode. -/
theorem fileRun_received {β : Type} (trace : Bool) (s : State A) {r : Record A} (hr : r.Sound)
    (hm : r.payload.isMissing = false) (g : RisuResult × State A → Handler A β)
    (rest : List Byte) :
    (fileRun (recvRegisterInfo trace s >>= g) (r.wire trace ++ rest)).last =
      (fileRun (g (.ok, storeRecord s r)) rest).last := by
  cases trace with
  | true => exact fileRun_bind_last (fileRun_recvRegisterInfo s r rest hr hm)
  | false =>
    have hheader := eats_recvRegisterInfo (P := fun _ => True) (s := s) (fun _ _ => trivial)
      (headerArchToHost_record r) g trivial
    rw [Record.wire, List.append_assoc, hheader.fileRun]
    by_cases hp : r.op.hasPayload = true
    · have hpayload := eats_recvPayload (P := fun _ => True) (s := s) (fun _ _ => trivial) hr hp hm
        g trivial
      obtain ⟨out, hrespond⟩ := fileRun_respond false (s.setHeader r.header) .ok
        (frame r.payload.bytes ++ rest)
      rw [hr.packet hm hp, afterHeader, if_pos hp, bind_assoc]
      exact (fileRun_bind_last hrespond).trans (congrArg FileRun.last (hpayload.fileRun rest))
    · obtain ⟨hpkt, hstore⟩ := hr.no_packet hp s
      rw [hpkt, afterHeader, if_neg hp, hstore]
      rfl

/-- The comparison, in either mode. -/
theorem fileRun_judgeRecord (trace : Bool) (f : Event A) (u : State A) (rest : List Byte) :
    (fileRun (judgeRecord trace f (.ok, u)) rest).last =
      match verdict f u with
      | .error d => .halt u d
      | .ok v => .ret v := by
  rw [judgeRecord_ok]
  cases verdict f u with
  | error d => rfl
  | ok v =>
    obtain ⟨out, hrespond⟩ := fileRun_respond trace v.2.2 (if v.1 = .ok then .ok else .resEnd) rest
    exact fileRun_bind_last hrespond

/-- **What is accepted.**  With the record of `m` in front of it, `recv_and_compare_register_info`
returns `RES_OK` if and only if the event is an illegal instruction passed over during setup, or the
pair agrees and is not the end of the test. -/
theorem recvAndCompare_ok_iff (trace : Bool) {m : Site A} {r : Record A} (hr : m.record = some r)
    (hm : ¬ m.Missing) (s : State A) (f : Event A) (rest : List Byte) :
    (∃ uc st, (fileRun (recvAndCompareRegisterInfo trace s f) (r.wire trace ++ rest)).last =
        .ret (.ok, uc, st)) ↔
      f.Skipped s.isSetup ∨ RisuOp.ofCode f.code ≠ some .testend ∧
        Passes m ⟨f, s.isSetup, s.memblock, s.signalCount⟩ := by
  have hmissing : r.payload.isMissing = false := by
    simpa [← Site.missing_iff hr] using hm
  have hop : m.op.isSome = true := by
    obtain ⟨op, hop, -⟩ := Option.map_eq_some_iff.mp hr
    simp [hop]
  set u := State.countSigill { s with riApprentice := A.reginfoInit f.uc } f.code with hu
  have hfaces : Faces (storeRecord u r) m ⟨f, s.isSetup, s.memblock, s.signalCount⟩ := by
    have := faces_storeRecord hr hmissing (f := f) (u := u) (by simp [hu])
    simpa [hu] using this
  unfold recvAndCompareRegisterInfo
  have hsetup : u.isSetup = s.isSetup := by simp [hu]
  simp only [← hu, hsetup]
  by_cases hskip : f.Skipped s.isSetup
  · rw [if_pos hskip]
    exact ⟨fun _ => .inl hskip, fun _ => ⟨_, _, rfl⟩⟩
  · rw [if_neg hskip, fileRun_received trace u (Site.record_sound hr) hmissing, fileRun_judgeRecord]
    have hout := outcome_ok_iff (a := ⟨f, s.isSetup, s.memblock, s.signalCount⟩) hop
    rw [← verdict_outcome hfaces] at hout
    rw [or_iff_right hskip]
    refine Iff.trans ?_ hout
    cases verdict f (storeRecord u r) with
    | error d => simp [Except.map]
    | ok v =>
      obtain ⟨res, uc, st⟩ := v
      simp [Except.map]

end Risu
