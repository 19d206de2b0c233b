import Risu.Settle
import Risu.Atomic
import Risu.Ppc64.Port

/-!
# The socket protocol

Two invariants of every run over the socket, for any interleaving.

* `lock_step` — packets and responses strictly alternate, nothing is answered twice, and the two
  sides never starve each other.  The apprentice is matched against any process that talks through
  `send_data_pkt` only, so that its error paths are covered whatever the packets contain;
  `master_sends` shows that the master is such a process.
* `agreement` — the master's completed ops are a prefix of the apprentice's, at most one shorter, and
  the `is_setup` flags agree after equal numbers.  `keptOps` ties the completed ops of each side to
  its own events.
-/

namespace Risu

open Lib Lib.Process

variable {A B : Arch}

/-! ### The master is a requester -/

theorem sendRecord_sends {β : Type} (op : RisuOp) (s : State A) (e : Event A)
    {k : RisuResult × A.Ucontext × State A → Handler A β} (hk : ∀ r, SendsPackets (k r)) :
    SendsPackets (sendRecord false op s e >>= k) := by
  rw [sendRecord]
  rw [bind_assoc]
  refine .send fun res => ?_
  split_ifs
  · exact hk _
  · cases masterExtra op s e with
    | none => exact hk _
    | some extra =>
      rw [bind_assoc]
      refine .send fun res => ?_
      split_ifs <;> exact hk _

/-- The master talks through `send_data_pkt` only. -/
theorem master_sends (es : List (Event A)) (s : State A) : SendsPackets (master false es s) := by
  induction es generalizing s with
  | nil => exact .done trivial
  | cons e es ih =>
    cases hsig : e.sig with
    | sigbus =>
      rw [master_sigbus _ _ _ hsig]
      exact .done trivial
    | sigill =>
      rw [master_sigill _ _ _ hsig]
      split_ifs
      · exact ih _
      · cases RisuOp.ofCode e.code with
        | none => exact .done trivial
        | some op =>
          refine sendRecord_sends op _ e fun r => ?_
          rw [masterNext]
          split_ifs
          · exact ih _
          · exact .done trivial

/-! ### The apprentice is a responder -/

section serve

variable {f : Event B} {fs : List (Event B)}

/-- Once the record is in, or has failed to come in, the apprentice answers or dies. -/
theorem judgeRecord_answers (hfs : ∀ t, Server Framed (apprentice false fs t))
    (r : RisuResult × State B) :
    Answers Framed (judgeRecord false f r >>= apprenticeNext false f fs) := by
  have hfinish : ∀ v : RisuResult × B.Ucontext × State B,
      Answers Framed (finishCompare false v >>= apprenticeNext false f fs) := by
    intro v
    refine .inr ⟨_, _, _, rfl, ?_⟩
    show Server Framed (apprenticeNext false f fs v)
    rw [apprenticeNext]
    split_ifs
    · exact hfs _
    · exact .done trivial
  rw [judgeRecord]
  split_ifs
  · exact hfinish _
  · cases verdict f r.2 with
    | error d => exact .inl trivial
    | ok v => exact hfinish v

/-- A process that reads one packet and then answers is a responder. -/
theorem readBuffer_serves {s : State B} {n : ℕ}
    {g : RisuResult × List Byte → Handler B (Leave × State B)} (hg : ∀ got, Answers Framed (g got)) :
    Server Framed (readBuffer false s n >>= g) := by
  refine .of_answers ?_ ?_
  · obtain ⟨k, hk⟩ := recvDataPkt_reading s n g
    exact hk ▸ trivial
  · intro bs hframed
    obtain ⟨pkt, hlen, rfl⟩ := hframed
    exact ⟨_, eats_readBuffer (fun _ _ => trivial) n pkt hlen g trivial, hg _⟩

/-- An acknowledged header is followed by another packet. -/
theorem respond_answers {s : State B} {n : ℕ} {k : Handler B (RisuResult × State B)}
    {h : RisuResult × List Byte → RisuResult × State B}
    (hk : k = (readBuffer false s n >>= fun got => .ret (h got)))
    (hfs : ∀ t, Server Framed (apprentice false fs t)) :
    Answers Framed ((respond false s .ok >>= fun _ => k) >>= fun r =>
      judgeRecord false f r >>= apprenticeNext false f fs) := by
  subst hk
  refine .inr ⟨_, _, _, rfl, ?_⟩
  show Server Framed ((readBuffer false s n >>= fun got => .ret (h got)) >>= fun r =>
    judgeRecord false f r >>= apprenticeNext false f fs)
  rw [bind_assoc]
  exact readBuffer_serves fun got => judgeRecord_answers hfs _

/-- Every way through `recv_register_info` ends in an answer. -/
theorem recvBody_answers (hfs : ∀ t, Server Framed (apprentice false fs t)) (s : State B) :
    Answers Framed (recvBody false s >>= fun r =>
      judgeRecord false f r >>= apprenticeNext false f fs) := by
  rw [recvBody]
  by_cases hmagic : s.header.magic ≠ risuMagic
  · rw [if_pos hmagic]
    exact judgeRecord_answers hfs _
  · rw [if_neg hmagic]
    cases RisuOp.ofCode s.header.risuOp with
    | none => exact judgeRecord_answers hfs _
    | some op =>
      cases op with
      | compare | testend | sigill =>
        simp only
        split_ifs
        · exact judgeRecord_answers hfs _
        · exact respond_answers rfl hfs
      | comparemem =>
        simp only
        split_ifs
        · exact judgeRecord_answers hfs _
        · exact respond_answers rfl hfs
      | setmemblock | getmemblock | setupbegin | setupend => exact judgeRecord_answers hfs _

theorem headerReceived_answers (hfs : ∀ t, Server Framed (apprentice false fs t)) (s : State B)
    (got : RisuResult × List Byte) :
    Answers Framed (headerReceived false s got >>= fun r =>
      judgeRecord false f r >>= apprenticeNext false f fs) := by
  unfold headerReceived
  simp only
  split_ifs
  · exact judgeRecord_answers hfs _
  · exact recvBody_answers hfs _

/-- The apprentice consumes any packet exactly, and answers it or ends. -/
theorem apprentice_serves (fs : List (Event B)) (t : State B) :
    Server Framed (apprentice false fs t) := by
  induction fs generalizing t with
  | nil => exact .done trivial
  | cons f fs ih =>
    cases hsig : f.sig with
    | sigbus =>
      rw [apprentice_sigbus _ _ _ hsig]
      exact .done trivial
    | sigill =>
      rw [apprentice_sigill _ _ _ hsig]
      split_ifs
      · exact ih _
      · rw [recvRegisterInfo, bind_assoc]
        exact readBuffer_serves fun got => headerReceived_answers ih _ got

end serve

/-! ### Lock-step -/

/-- **The socket protocol is in strict lock-step.**  The master talks through `send_data_pkt` only;
and for any process that does, whatever its packets contain, any apprentice and any interleaving:
packets and responses alternate, at most one packet is unanswered and at most one response unread,
each response is taken by the call that sent the packet it answers, the two sides never wait for
each other, and a packet stays unanswered only if the apprentice has left its image or died. -/
theorem lock_step :
    (∀ (es : List (Event A)) (s : State A), SendsPackets (master false es s)) ∧
    ∀ (l : Handler A (Leave × State A)), SendsPackets l →
      ∀ (fs : List (Event B)) (t : State B) (hist : List Act)
        (S : Duplex (State A) (State B) Death (Leave × State A) (Leave × State B)),
        Run (.start l (apprentice false fs t)) hist S → LockStep Framed hist S :=
  ⟨master_sends, fun _ hl fs t _ _ hrun => hl.client.lockStep (apprentice_serves fs t) hrun⟩

/-- The lock-step of a master that ends the test at once, with any apprentice. -/
theorem lock_step_testend :
    SendsPackets (master false [Ppc64.request .testend] (.start _)) ∧
    ∀ (fs : List (Event (Ppc64.port Ppc64.native32))) (hist : List Act) (S : Duplex _ _ _ _ _),
      Run (session [Ppc64.request .testend] fs) hist S → LockStep Framed hist S := by
  obtain ⟨hsends, hlock⟩ :=
    lock_step (A := Ppc64.port Ppc64.native32) (B := Ppc64.port Ppc64.native32)
  exact ⟨hsends _ _, fun fs hist S hrun => hlock _ (hsends _ _) fs _ hist S hrun⟩

/-- An event of the apprentice that leaves the image without an answer. -/
def busError : Event (Ppc64.port Ppc64.native32) :=
  { Ppc64.request .compare with sig := .sigbus }

/-- A bus error of the apprentice leaves the packet on the way unanswered for good. -/
theorem busError_unanswered :
    ¬ ∀ (es fs : List (Event (Ppc64.port Ppc64.native32))) (hist : List Act)
      (S : Duplex (State (Ppc64.port Ppc64.native32)) (State (Ppc64.port Ppc64.native32)) Death
        (Leave × State (Ppc64.port Ppc64.native32)) (Leave × State (Ppc64.port Ppc64.native32))),
      Run (session es fs) hist S → S.Final →
        (requests hist).length = (responses hist).length := by
  intro h
  set e := Ppc64.request .compare with he
  set s := State.start (Ppc64.port Ppc64.native32) with hs
  have hop : RisuOp.ofCode e.code = some .compare := Ppc64.request_op _
  have hskip : ¬ e.Skipped s.isSetup := fun hskip => by cases hskip.2
  have hmaster : master false [e] s = sendRecord false .compare
      (masterRecord .compare (s.enterMaster e) e) e >>= masterNext false e [] := by
    rw [master_sigill _ _ _ rfl, if_neg hskip, hop]
  obtain ⟨s', bs, kl, k, hwrite, hread⟩ : ∃ s' bs kl k,
      master false [e] s = .write s' bs kl ∧ kl bs.length = .read s' 1 k := by
    have hlen := Arch.sizeofHeader_lt (Ppc64.port Ppc64.native32)
    rw [← Header.bytes_length] at hlen
    rw [hmaster, sendRecord, bind_assoc]
    exact ⟨_, _, _, _, sendDataPkt_bind hlen, rfl⟩
  have hright : (apprentice false [busError] s).Done := by
    rw [apprentice_sigbus _ _ _ rfl]
    trivial
  have hstart : Run (session [e] [busError]) [] (session [e] [busError]) := .nil
  have hrun := hstart.snoc (Step.leftWrite hwrite)
  have hcount := h _ _ _ _ hrun (by
    intro a T hstep
    cases hstep with
    | leftWrite hl => rw [hread] at hl; cases hl
    | leftRead _ hy hc => exact no_chunk hy hc
    | rightWrite hr =>
      have hr' : apprentice false [busError] s = _ := hr
      rw [hr'] at hright
      exact hright
    | rightRead hr =>
      have hr' : apprentice false [busError] s = _ := hr
      rw [hr'] at hright
      exact hright)
  simp [requests, responses] at hcount

/-! ### Agreement -/

/-- The ops of a side's own events, without the illegal instructions passed over during setup, up to
the event at which the side stops by itself. -/
def keptOps : List (Event A) → Bool → List RisuOp
  | [], _ => []
  | e :: es, isSetup =>
    match e.sig with
    | .sigbus => []
    | .sigill =>
      if e.Skipped isSetup then keptOps es isSetup
      else
        match RisuOp.ofCode e.code with
        | none => []
        | some op => op :: keptOps es (setupAfter op isSetup)

/-- The ops completed at `w` go on from those at `s` with a prefix of `ops`. -/
def CompletedFrom (s : State A) (ops : List RisuOp) (w : State A) : Prop :=
  ∃ done, done <+: ops ∧ w.completed.map Prod.fst = s.completed.map Prod.fst ++ done

theorem CompletedFrom.of_mark {s w : State A} {ops : List RisuOp} (h : w.mark = s.mark) :
    CompletedFrom s ops w := by
  refine ⟨[], List.nil_prefix, ?_⟩
  have hc : w.completed = s.completed := congrArg Prod.fst h
  simp [hc]

/-- After one more op the rest goes on from there. -/
theorem CompletedFrom.cons {s s' w : State A} {op : RisuOp} {ops : List RisuOp}
    (hs : s'.mark = markAfter op s.mark) (h : CompletedFrom s' ops w) :
    CompletedFrom s (op :: ops) w := by
  obtain ⟨done, hpre, hw⟩ := h
  refine ⟨op :: done, List.cons_prefix_cons.mpr ⟨rfl, hpre⟩, ?_⟩
  have hc : s'.completed = s.completed ++ [(op, setupAfter op s.isSetup)] :=
    congrArg Prod.fst hs
  simp [hw, hc]

theorem CompletedFrom.congr {s s' w : State A} {ops : List RisuOp} (hs : s'.mark = s.mark)
    (h : CompletedFrom s' ops w) : CompletedFrom s ops w := by
  obtain ⟨done, hpre, hw⟩ := h
  have hc : s'.completed = s.completed := congrArg Prod.fst hs
  exact ⟨done, hpre, by rw [hw, hc]⟩

theorem isSetup_of_mark {s w : State A} (h : w.mark = s.mark) : w.isSetup = s.isSetup :=
  congrArg Prod.snd h

/-- What `send_register_info` returns: a completed op, or an unchanged mark. -/
theorem sendRecord_marks (op : RisuOp) (s : State A) (e : Event A) :
    (sendRecord false op s e).Everywhere (fun w => w.mark = s.mark) fun r =>
      r.1 = .ok ∧ r.2.2.mark = markAfter op s.mark ∨ r.1 ≠ .ok ∧ r.2.2.mark = s.mark := by
  refine (sendRecord_finishes false op s e).mono (fun w hw => by rw [hw]) ?_
  intro r hr
  obtain rfl | ⟨hne, hr⟩ := hr
  · by_cases hop : op = .testend
    · subst hop
      refine .inr ⟨fun h => ?_, rfl⟩
      cases h
    · exact .inl (masterFinish_ok hop s e)
  · exact .inr ⟨hne, by rw [hr]⟩

/-- Everything the master completes are ops of its own events, in order. -/
theorem master_completed (es : List (Event A)) (s : State A) :
    (master false es s).Everywhere (CompletedFrom s (keptOps es s.isSetup))
      fun r => CompletedFrom s (keptOps es s.isSetup) r.2 := by
  induction es generalizing s with
  | nil => exact .of_mark rfl
  | cons e es ih =>
    cases hsig : e.sig with
    | sigbus =>
      rw [master_sigbus _ _ _ hsig]
      exact .of_mark (by rw [resume_mark]; rfl)
    | sigill =>
      rw [master_sigill _ _ _ hsig, keptOps]
      simp only [hsig]
      split_ifs with hskip
      · have hm : (resume e (.ok, e.uc, s.enterMaster e)).2.mark = s.mark := by simp
        have := ih (resume e (.ok, e.uc, s.enterMaster e)).2
        rw [isSetup_of_mark hm] at this
        exact this.mono (fun _ => .congr hm) fun _ => .congr hm
      · cases RisuOp.ofCode e.code with
        | none => exact .of_mark (by simp)
        | some op =>
          have hsend := sendRecord_marks op (masterRecord op (s.enterMaster e) e) e
          simp only [masterRecord_mark, enterMaster_mark] at hsend
          refine (hsend.mono (fun _ => .of_mark) fun _ => id).bind fun r hr => ?_
          rw [masterNext]
          split_ifs with hok
          · have hm : (resume e r).2.mark = markAfter op s.mark := by
              rw [resume_mark]
              exact (hr.resolve_right fun h => h.1 hok).2
            have := ih (resume e r).2
            rw [show (resume e r).2.isSetup = setupAfter op s.isSetup from congrArg Prod.snd hm]
              at this
            exact this.mono (fun _ => .cons hm) fun _ => .cons hm
          · refine .of_mark ?_
            rw [resume_mark]
            exact (hr.resolve_left fun h => hok h.1).2

/-- Reading a record changes no mark. -/
theorem recvRegisterInfo_marks (s : State A) :
    (recvRegisterInfo false s).Everywhere (fun w => w.mark = s.mark) fun r =>
      r.2.mark = s.mark := by
  exact (recvRegisterInfo_fills false s).mono (fun _ hw => hw.mark) fun _ hr => hr.mark

/-- At `u` the op of the event `f` is completed on top of `s`. -/
def Advanced (f : Event A) (s u : State A) : Prop :=
  ∃ op, RisuOp.ofCode f.code = some op ∧ u.mark = markAfter op s.mark

/-- What the comparison returns: the apprentice's own op completed, or an unchanged mark. -/
theorem judgeRecord_marks (f : Event A) {r : RisuResult × State A} {s : State A}
    (hr : r.2.mark = s.mark) :
    (judgeRecord false f r).Everywhere (fun u => u.mark = s.mark ∨ Advanced f s u)
      fun v => v.1 = .ok ∧ Advanced f s v.2.2 ∨ v.1 ≠ .ok ∧ v.2.2.mark = s.mark := by
  have hfinish : ∀ v : RisuResult × A.Ucontext × State A,
      (v.1 = .ok ∧ Advanced f s v.2.2 ∨ v.1 ≠ .ok ∧ v.2.2.mark = s.mark) →
      (finishCompare false v).Everywhere (fun u => u.mark = s.mark ∨ Advanced f s u)
        fun v => v.1 = .ok ∧ Advanced f s v.2.2 ∨ v.1 ≠ .ok ∧ v.2.2.mark = s.mark := by
    intro v hv
    refine Everywhere.bind (Q := fun _ => True) (everywhere_sendResponseByte ?_ _) fun _ _ => hv
    exact hv.elim (fun h => .inr h.2) fun h => .inl h.2
  rw [judgeRecord]
  split_ifs with hres
  · exact hfinish _ (.inr ⟨hres, hr⟩)
  · cases hv : verdict f r.2 with
    | error d => exact .inl hr
    | ok v =>
      refine hfinish v ?_
      rw [Advanced]
      rw [← hr]
      rcases verdict_cases hv with ⟨hok, op, hop, -, -, hm⟩ | ⟨hok, -, hm⟩
      · exact .inl ⟨hok, op, hop, hm⟩
      · exact .inr ⟨hok, hm⟩

/-- Everything the apprentice completes are ops of its own events, in order. -/
theorem apprentice_completed (fs : List (Event A)) (t : State A) :
    (apprentice false fs t).Everywhere (CompletedFrom t (keptOps fs t.isSetup))
      fun r => CompletedFrom t (keptOps fs t.isSetup) r.2 := by
  induction fs generalizing t with
  | nil => exact .of_mark rfl
  | cons f fs ih =>
    cases hsig : f.sig with
    | sigbus =>
      rw [apprentice_sigbus _ _ _ hsig]
      exact .of_mark (by rw [resume_mark]; rfl)
    | sigill =>
      rw [apprentice_sigill _ _ _ hsig, keptOps]
      simp only [hsig]
      split_ifs with hskip
      · have hm : (resume f (.ok, f.uc, t.enterApprentice f)).2.mark = t.mark := by simp
        have := ih (resume f (.ok, f.uc, t.enterApprentice f)).2
        rw [isSetup_of_mark hm] at this
        exact this.mono (fun _ => .congr hm) fun _ => .congr hm
      · have hrecv := recvRegisterInfo_marks (t.enterApprentice f)
        simp only [enterApprentice_mark] at hrecv
        refine (hrecv.mono (fun _ => .of_mark) fun _ => id).bind fun r hr => ?_
        -- the op of the event counts from the moment the answer is decided
        have hahead : ∀ u : State A, u.mark = t.mark ∨ Advanced f t u →
            CompletedFrom t (match RisuOp.ofCode f.code with
              | none => []
              | some op => op :: keptOps fs (setupAfter op t.isSetup)) u := by
          intro u hmark
          rcases hmark with hu | ⟨op, hop, hu⟩
          · exact .of_mark hu
          · rw [hop]
            exact .cons hu (.of_mark rfl)
        refine ((judgeRecord_marks f hr).mono hahead fun _ => id).bind fun v hv => ?_
        rw [apprenticeNext]
        split_ifs with hok
        · obtain ⟨-, op, hop, hvm⟩ := hv.resolve_right fun h => h.1 hok
          have hm : (resume f v).2.mark = markAfter op t.mark := by rw [resume_mark, hvm]
          have := ih (resume f v).2
          rw [show (resume f v).2.isSetup = setupAfter op t.isSetup from congrArg Prod.snd hm]
            at this
          rw [hop]
          exact this.mono (fun _ => .cons hm) fun _ => .cons hm
        · refine .of_mark ?_
          rw [resume_mark]
          exact (hv.resolve_left fun h => hok h.1).2

/-- **Agreement.**  In every reachable state, for any two event sequences and any interleaving: the
ops the master has completed are a prefix of those the apprentice has completed, at most one
shorter; after equal numbers the `is_setup` flags are equal; and on each side the completed ops are
a prefix of the ops of its own events with the illegal instructions of setup windows left out, so
that these never shift the pairing. -/
theorem agreement (es fs : List (Event A))
    (hready : memblockReady none es = true) (hist : List Act)
    (S : Duplex (State A) (State A) Death (Leave × State A) (Leave × State A))
    (hrun : Run (session es fs) hist S) :
    S.left.view.completed.map Prod.fst <+: S.right.view.completed.map Prod.fst ∧
    S.right.view.completed.length ≤ S.left.view.completed.length + 1 ∧
    (S.left.view.completed.length = S.right.view.completed.length →
      S.left.view.isSetup = S.right.view.isSetup) ∧
    S.left.view.completed.map Prod.fst <+: keptOps es false ∧
    S.right.view.completed.map Prod.fst <+: keptOps fs false := by
  obtain ⟨lf, rf, hset, -⟩ := settles_session (R := Agree) (fun _ _ => id) es (.start A)
    (.inl hready) fs (.start A) rfl
  obtain ⟨turn, -, hphase⟩ := hset.phase hrun
  obtain ⟨hpre, hlength, hsetup⟩ : Agree S.left.view S.right.view := hphase.here
  have hleft := (hrun.everywhere_left (master_completed es (.start A))).view
  have hright := (hrun.everywhere_right (apprentice_completed fs (.start A))).view
  obtain ⟨done, hdone, hl⟩ := hleft
  obtain ⟨done', hdone', hr⟩ := hright
  refine ⟨hpre.map Prod.fst, hlength, hsetup, ?_, ?_⟩
  · rw [hl]
    exact hdone
  · rw [hr]
    exact hdone'

/-- Agreement for a master that sets its memory block and then asks to compare it. -/
theorem agreement_comparemem :
    memblockReady none [Ppc64.request .setmemblock, Ppc64.request .comparemem] = true ∧
    ∀ (fs : List (Event (Ppc64.port Ppc64.native32))) (hist : List Act) (S : Duplex _ _ _ _ _),
      Run (session [Ppc64.request .setmemblock, Ppc64.request .comparemem] fs) hist S →
      S.left.view.completed.map Prod.fst <+: S.right.view.completed.map Prod.fst := by
  have hready : memblockReady none
      [Ppc64.request .setmemblock, Ppc64.request .comparemem] = true := by
    simp only [memblockReady, Ppc64.request_op, Bool.and_true]
    rfl
  exact ⟨hready, fun fs hist S hrun => (agreement _ fs hready hist S hrun).1⟩

end Risu
