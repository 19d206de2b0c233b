import Risu.Pairing

/-!
# Recording and playing back a trace

In trace mode the master writes its records to a file one after the other, without framing and
without answers, and the apprentice later reads them from there.

* `fileRun_master` — what the master writes, in any build; `fileRun_master_records` — without byte
  swapping these are its records;
* `trace_round_trip` — successive calls of `recv_register_info` read back every record, to the last
  byte;
* `fileRun_apprentice` — playing a trace back is following its records;
* `playback_eq_live` — the apprentice ends exactly as it does in a session over the socket, although
  the live master is told to stop at a mismatch and the recording one is not.
-/

namespace Risu

open Lib Lib.Process

variable {A : Arch}

/-! ### Recording -/

/-- The bytes at `extra` that are written behind a header. -/
def extraBytes (op : RisuOp) (s : State A) (e : Event A) : List Byte :=
  (masterExtra op s e).elim [] fun extra => (List.range s.header.size.toNat).map extra

theorem extraBytes_eq (op : RisuOp) (s : State A) (e : Event A) :
    extraBytes op s e = (masterPacket op s e).getD [] := by
  unfold extraBytes masterPacket
  cases masterExtra op s e <;> rfl

/-- A buffer written to a file is written whole. -/
theorem fileRun_writeBuffer (s : State A) (bs inp : List Byte) :
    fileRun (writeBuffer true s bs) inp = ⟨bs, inp, .ret .ok⟩ := by
  simp [writeBuffer]

/-- `send_register_info` writes the header and what `extra` points at. -/
theorem fileRun_sendRecord (op : RisuOp) (s : State A) (e : Event A) (inp : List Byte) :
    fileRun (sendRecord true op s e) inp =
      ⟨s.header.bytes ++ extraBytes op s e, inp, .ret (masterFinish op s e)⟩ := by
  unfold sendRecord extraBytes
  rw [fileRun_bind (fileRun_writeBuffer _ _ _)]
  simp only [ne_eq, not_true_eq_false, if_false]
  cases masterExtra op s e with
  | none => simp
  | some extra =>
    simp only
    rw [fileRun_bind (fileRun_writeBuffer _ _ _)]
    simp

/-- The master at an event, as far as its record depends on it. -/
def Site.entered (c : Site A) : State A :=
  { State.start A with riMaster := c.ri, memblock := c.memblock }

/-- The master when the record of an event is ready to be written. -/
def Site.prepared (c : Site A) (op : RisuOp) : State A := masterRecord op c.entered c.event

/-- What the master writes for an event. -/
def Site.written (c : Site A) : List Byte :=
  match c.op with
  | none => []
  | some op => (c.prepared op).header.bytes ++ extraBytes op (c.prepared op) c.event

/-- What is written depends on the registers and the memory block only. -/
theorem written_eq {c : Site A} {op : RisuOp} (hop : c.op = some op) {s : State A}
    (hri : s.riMaster = c.ri) (hmem : s.memblock = c.memblock) :
    (masterRecord op s c.event).header.bytes ++
      extraBytes op (masterRecord op s c.event) c.event = c.written := by
  have hheader : (masterRecord op s c.event).header = (c.prepared op).header := by
    simp only [Site.prepared, Site.entered, masterRecord, hri]
  have hextra : masterExtra op (masterRecord op s c.event) c.event =
      masterExtra op (c.prepared op) c.event := by
    cases op <;> simp only [Site.prepared, Site.entered, masterRecord, masterExtra, hri, hmem]
  simp only [Site.written, hop, extraBytes, hheader, hextra]

/-- **The master writes its kept events**, one after the other. -/
theorem fileRun_master (es : List (Event A)) (s : State A) (inp : List Byte) :
    (fileRun (master true es s) inp).out = (s.kept es).flatMap Site.written := by
  induction es generalizing s with
  | nil => rfl
  | cons e es ih =>
    cases hsig : e.sig with
    | sigbus =>
      rw [master_sigbus _ _ _ hsig]
      simp [State.kept, kept, hsig]
    | sigill =>
      rw [master_sigill _ _ _ hsig, kept_master es s hsig]
      split_ifs with hskip
      · exact ih _
      · rw [List.flatMap_cons]
        cases hop : RisuOp.ofCode e.code with
        | none => simp [Site.written, Site.op, hop]
        | some op =>
          have hwritten := written_eq (c := ⟨e, s.isSetup, s.memblock, s.signalCount + 1⟩) hop
            (s := s.enterMaster e) (by simp [State.enterMaster, Site.ri])
            (by simp [State.enterMaster])
          simp only
          rw [fileRun_bind (fileRun_sendRecord _ _ _ _), hwritten]
          simp only [List.append_cancel_left_eq, masterNext]
          split_ifs
          · exact ih _
          · rfl

/-- Without byte swapping, what is written for an event is its record. -/
theorem written_record (hA : A.swapsHeader = false) {c : Site A} {r : Record A}
    (hr : c.record = some r) : c.written = r.bytes := by
  obtain ⟨op, hop, hrec⟩ := Option.map_eq_some_iff.mp hr
  have hrecord : recordOf op c.entered c.event = r := by
    rw [← hrec]
    simp only [recordOf, Site.block, Site.entered]
    cases op <;> simp
    cases c.memblock <;> rfl
  have hextra : extraBytes op (c.prepared op) c.event = r.payload.bytes := by
    rw [extraBytes_eq, Site.prepared, masterPacket_eq (Arch.distorts_of_native hA op), hrecord]
    cases r.payload <;> rfl
  have hheader : (c.prepared op).header = r.header := by
    rw [Site.prepared, masterRecord_header, hrecord, Record.wireHeader, headerHostToArch_eq hA]
  simp only [Site.written, hop, hextra, hheader, Record.bytes]

/-- Without byte swapping, the master writes its records. -/
theorem fileRun_master_records (hA : A.swapsHeader = false) (es : List (Event A)) (s : State A)
    (inp : List Byte) :
    (fileRun (master true es s) inp).out = (records es s).flatMap Record.bytes := by
  rw [fileRun_master, records_eq]
  induction s.kept es with
  | nil => rfl
  | cons c L ih =>
    cases hr : c.record with
    | none =>
      have hop : c.op = none := by simpa [Site.record] using hr
      rw [List.filterMap_cons_none hr, List.flatMap_cons, ih]
      simp [Site.written, hop]
    | some r =>
      rw [List.filterMap_cons_some hr, List.flatMap_cons, List.flatMap_cons, ih,
        written_record hA hr]

/-! ### Reading a trace back -/

/-- The record `recv_register_info` has left in the state. -/
def State.received (s : State A) : Option (Record A) :=
  (RisuOp.ofCode s.header.risuOp).map fun op =>
    { op
      pc := s.header.pc
      payload :=
        match op with
        | .testend | .compare | .sigill => .regs s.riMaster
        | .comparemem => .mem s.otherMemblock.1
        | .setmemblock | .getmemblock | .setupbegin | .setupend => .empty }

/-- Successive calls of `recv_register_info` on a trace: what each call returns together with the
record it leaves, and the bytes that are left. -/
def receiveAll : ℕ → State A → List Byte → List (RisuResult × Option (Record A)) × List Byte
  | 0, _, bs => ([], bs)
  | n + 1, s, bs =>
    let r := fileRun (recvRegisterInfo true s) bs
    match r.last with
    | .ret (res, s') =>
      let rest := receiveAll n s' r.rest
      ((res, s'.received) :: rest.1, rest.2)
    | _ => ([], r.rest)

theorem storeRecord_received (s : State A) {r : Record A} (hr : r.Sound)
    (hm : r.payload.isMissing = false) : (storeRecord s r).received = some r := by
  obtain ⟨op, pc, payload⟩ := r
  have hop : ∀ u : State A, u.header = Record.header ⟨op, pc, payload⟩ →
      RisuOp.ofCode u.header.risuOp = some op ∧ u.header.pc = pc := by
    intro u hu
    rw [hu]
    exact ⟨RisuOp.ofCode_code op, rfl⟩
  cases payload with
  | missing => cases hm
  | empty =>
    obtain ⟨h₁, h₂⟩ := hop (storeRecord s ⟨op, pc, .empty⟩) rfl
    simp only [State.received, h₁, h₂, Option.map_some]
    obtain ⟨hreg, hmem⟩ : op.isRegister = false ∧ op ≠ .comparemem := hr
    cases op <;> first | rfl | exact absurd hreg (by decide) | exact absurd rfl hmem
  | regs ri =>
    obtain ⟨h₁, h₂⟩ := hop (storeRecord s ⟨op, pc, .regs ri⟩) rfl
    simp only [State.received, h₁, h₂, Option.map_some]
    have hreg : op.isRegister = true := hr
    cases op <;> first | rfl | exact absurd hreg (by decide)
  | mem block =>
    obtain ⟨h₁, h₂⟩ := hop (storeRecord s ⟨op, pc, .mem block⟩) rfl
    obtain ⟨rfl, hlen⟩ : op = .comparemem ∧ block.length = memblockLen := hr
    have hblock : (storeRecord s ⟨.comparemem, pc, .mem block⟩).otherMemblock.1 = block :=
      Block.store_val _ hlen
    simp only [State.received, h₁, h₂, Option.map_some, hblock]

/-- Records written one after the other are read back one after the other. -/
theorem receiveAll_records (rs : List (Record A)) (s : State A) (rest : List Byte)
    (hrs : ∀ r ∈ rs, r.Sound ∧ r.payload.isMissing = false) :
    receiveAll rs.length s (rs.flatMap Record.bytes ++ rest) =
      (rs.map fun r => (.ok, some r), rest) := by
  induction rs generalizing s with
  | nil => rfl
  | cons r rs ih =>
    obtain ⟨hsound, hm⟩ := hrs r List.mem_cons_self
    rw [List.flatMap_cons, List.append_assoc, List.length_cons, receiveAll]
    simp only [fileRun_recvRegisterInfo s r _ hsound hm]
    rw [ih _ fun r' hr' => hrs r' (List.mem_cons_of_mem _ hr'), storeRecord_received s hsound hm]
    rfl

/-- The records of the master are sound, and none is missing its block. -/
theorem records_sound {es : List (Event A)} {s : State A} (h : memblockReady s.memblock es = true) :
    ∀ r ∈ records es s, r.Sound ∧ r.payload.isMissing = false := by
  intro r hr
  rw [records_eq] at hr
  obtain ⟨c, hc, hcr⟩ := List.mem_filterMap.mp hr
  refine ⟨c.record_sound hcr, ?_⟩
  have := kept_ready es s.isSetup s.memblock s.signalCount h c hc
  rw [← Site.missing_iff hcr] at this
  simpa using this

/-- **A trace is read back record by record.**  In a build that does not swap bytes, with `memblock`
set before it is compared, the calls of `recv_register_info` on what the master wrote all return
`RES_OK`, leave the records of the master's events without the illegal instructions of setup
windows, and consume the trace to its end. -/
theorem trace_round_trip (hA : A.swapsHeader = false) (es : List (Event A))
    (hready : memblockReady none es = true) (t : State A) :
    receiveAll (sent es).length t (fileRun (master true es (.start A)) []).out =
      ((sent es).map fun c => (.ok, c.record), []) := by
  have hrec : List.Forall₂ (fun m r => m.record = some r) (sent es) (records es (.start A)) := by
    rw [records_eq]
    exact forall₂_record _
  have hmap : (records es (.start A)).map (fun r => (RisuResult.ok, some r)) =
      (sent es).map fun c => (.ok, c.record) := by
    refine List.ext_getElem (by simp [hrec.length_eq]) ?_
    intro i h₁ h₂
    have := (List.forall₂_iff_get.mp hrec).2 i (by simpa using h₂) (by simpa using h₁)
    simpa using this.symm
  have := receiveAll_records (records es (.start A)) t [] (records_sound hready)
  rw [List.append_nil] at this
  rw [fileRun_master_records hA, hrec.length_eq, this, hmap]

/-- An image that sets its memory block, compares it and ends the test. -/
theorem trace_round_trip_comparemem :
    memblockReady none [Ppc64.request .setmemblock, Ppc64.request .comparemem,
      Ppc64.request .testend] = true ∧
    receiveAll (sent [Ppc64.request .setmemblock, Ppc64.request .comparemem,
        Ppc64.request .testend]).length (.start _)
      (fileRun (master true [Ppc64.request .setmemblock, Ppc64.request .comparemem,
        Ppc64.request .testend] (.start _)) []).out =
      ((sent [Ppc64.request .setmemblock, Ppc64.request .comparemem,
        Ppc64.request .testend]).map fun c => (.ok, c.record), []) := by
  have hready : memblockReady none [Ppc64.request .setmemblock, Ppc64.request .comparemem,
      Ppc64.request .testend] = true := by
    simp only [memblockReady, Ppc64.request_op, Bool.and_true]
    rfl
  exact ⟨hready, trace_round_trip Ppc64.native32_swapsHeader _ hready _⟩

/-! ### Playback -/

/-- **Playing a trace back is following its records.**  A trace that reaches `TESTEND` does not run
out before the apprentice has stopped. -/
theorem fileRun_apprentice (hA : A.swapsHeader = false) (fs : List (Event A))
    (rs : List (Record A)) (t : State A)
    (hrs : ∀ r ∈ rs, r.Sound ∧ r.payload.isMissing = false) (hend : ∃ r ∈ rs, r.op = .testend) :
    (follow fs rs t).Reached (fileRun (apprentice true fs t) (rs.flatMap Record.bytes)).last ∧
      follow fs rs t ≠ .starved := by
  induction fs generalizing rs t with
  | nil => exact ⟨rfl, fun h => by cases h⟩
  | cons f fs ih =>
    cases hsig : f.sig with
    | sigbus =>
      rw [apprentice_sigbus _ _ _ hsig]
      simp [follow, hsig, Ending.Reached]
    | sigill =>
      rw [apprentice_sigill _ _ _ hsig]
      cases rs with
      | nil => simp at hend
      | cons r rs =>
        rw [follow_sigill hsig]
        obtain ⟨hsound, hm⟩ := hrs r List.mem_cons_self
        by_cases hskip : f.Skipped t.isSetup
        · rw [if_pos hskip, if_pos hskip]
          exact ih _ _ hrs hend
        · rw [if_neg hskip, if_neg hskip, hm, if_neg (by decide),
            Arch.distorts_of_native hA, if_neg (by decide), List.flatMap_cons,
            fileRun_bind (fileRun_recvRegisterInfo _ r _ hsound hm), judgeRecord_ok, judge]
          cases hv : verdict f (storeRecord (t.enterApprentice f) r) with
          | error d => exact ⟨rfl, fun h => by cases h⟩
          | ok v =>
            simp only [finishCompare, respond, if_true, pure_eq, ret_bind, apprenticeNext]
            rcases verdict_cases hv with ⟨hok, op, -, hcode, hne, -⟩ | ⟨hok, -⟩
            · -- an accepted record is not the `TESTEND`, which is still to come
              have hop : r.op ≠ .testend := by
                rw [storeRecord_header] at hcode
                intro h
                exact hne (RisuOp.code_injective (by rw [← hcode, ← h]; rfl))
              rw [if_pos hok, if_pos hok]
              refine ih _ _ (fun r' hr' => hrs r' (List.mem_cons_of_mem _ hr')) ?_
              obtain ⟨r', hr', htest⟩ := hend
              rcases List.mem_cons.mp hr' with rfl | hr'
              · exact absurd htest hop
              · exact ⟨r', hr', htest⟩
            · rw [if_neg hok, if_neg hok]
              exact ⟨rfl, fun h => by cases h⟩

/-- **Playback agrees with the live run.**  For a master whose events lead to a `TESTEND`, with
`memblock` set before it is compared, and any events of the apprentice: every run over the socket
comes to an end with the apprentice exactly where it ends when it plays back the recorded trace, in
its result, its event, and its whole state. -/
theorem playback_eq_live (hA : A.swapsHeader = false) (es fs : List (Event A))
    (hready : memblockReady none es = true)
    (hend : ∃ c ∈ kept es false none 0, c.op = some .testend) :
    (session es fs).Stops ∧ ∀ hist S, Run (session es fs) hist S → S.Final →
      S.right = (fileRun (apprentice true fs (.start A))
        (fileRun (master true es (.start A)) []).out).last := by
  obtain ⟨lf, rf, hset, hreach, -⟩ := settles_session (R := fun _ _ => True)
    (fun _ _ _ => trivial) es (.start A) (.inr fun _ _ => trivial) fs (.start A) rfl
  refine ⟨hset.stops, fun hist S hrun hfinal => ?_⟩
  obtain ⟨turn, -, hphase⟩ := hset.phase hrun
  obtain ⟨-, hright⟩ := hphase.final hfinal
  have htest : ∃ r ∈ records es (.start A), r.op = .testend := by
    obtain ⟨c, hc, hop⟩ := hend
    rw [records_eq]
    exact ⟨_, List.mem_filterMap.mpr ⟨c, hc, by simp [Site.record, hop]; rfl⟩, rfl⟩
  obtain ⟨hplay, hne⟩ := fileRun_apprentice hA fs _ (.start A) (records_sound hready) htest
  rw [fileRun_master_records hA, hright]
  exact hreach.unique hplay hne

/-- An apprentice that leaves the test at the memory block: playback ends at the mismatch, as the live run
does. -/
theorem playback_eq_live_blockTest :
    (memblockReady none (blockTest 1) = true ∧
      ∃ c ∈ kept (blockTest 1) false none 0, c.op = some .testend) ∧
    ∀ hist S, Run (session (blockTest 1) (Ppc64.request .setmemblock :: Ppc64.request .setupbegin ::
        [Ppc64.request .setupend, Ppc64.request .compare, Ppc64.request .testend])) hist S → S.Final →
      S.right = (fileRun (apprentice true (Ppc64.request .setmemblock :: Ppc64.request .setupbegin ::
          [Ppc64.request .setupend, Ppc64.request .compare, Ppc64.request .testend]) (.start _))
        (fileRun (master true (blockTest 1) (.start _)) []).out).last := by
  have hready := memblockReady_blockTest 1
  have hend : ∃ c ∈ kept (blockTest 1) false none 0, c.op = some .testend := by
    rw [kept_blockTest]
    exact ⟨⟨Ppc64.request .testend, false, some blockPtr, 7⟩, by simp, Ppc64.request_op _⟩
  exact ⟨⟨hready, hend⟩, (playback_eq_live Ppc64.native32_swapsHeader _ _ hready hend).2⟩

end Risu
