import Risu.Session

/-!
# The two programs settle

`settles_session` links the code to the pure functions of `Risu.Session`: over the socket the two
programs settle, in the sense of `Lib.Settles`, with the apprentice at the ending `follow` computes
and the master successful exactly when the apprentice stopped on an answer.  On the way the two
sides' `completed` lists and `is_setup` flags stay in the relation `Agree`.

* `settlesAs_judged` — the last packet of a record;
* `settlesAs_header` — the header of a record with a payload;
* `settlesAs_offer` — a record from offer to answer; `settlesAs_offer_missing` and
  `settlesAs_offer_distorted` — one whose block is not sent, or whose payload has another length
  than announced;
* `settlesAs_event` — a record against all that is left of the apprentice's events.
-/

namespace Risu

open Lib Lib.Process

variable {A : Arch}

/-! ### Agreement -/

/-- The ops the master has completed are a prefix of those the apprentice has completed, at most
one shorter, and after equal numbers the `is_setup` flags are equal. -/
def Agree (s t : State A) : Prop :=
  s.completed <+: t.completed ∧ t.completed.length ≤ s.completed.length + 1 ∧
    (s.completed.length = t.completed.length → s.isSetup = t.isSetup)

theorem Agree.of_mark_eq {s t : State A} (h : s.mark = t.mark) : Agree s t := by
  obtain ⟨hc, hb⟩ := Prod.ext_iff.mp h
  simp only [State.mark] at hc hb
  simp [Agree, hc, hb]

/-- While its answer is on the way, the apprentice is one exchange ahead. -/
theorem Agree.of_ahead {s t : State A} {op : RisuOp} (h : t.mark = markAfter op s.mark) :
    Agree s t := by
  obtain ⟨hc, -⟩ := Prod.ext_iff.mp h
  simp only [State.mark, markAfter] at hc
  simp [Agree, hc]

/-! ### The apprentice between two exchanges -/

theorem recvRegisterInfo_reading {β : Type} (s : State A)
    (g : RisuResult × State A → Handler A β) :
    ∃ k, (recvRegisterInfo false s >>= g) = .read s 4 k := by
  rw [recvRegisterInfo, bind_assoc]
  exact recvDataPkt_reading s _ _

/-- Between exchanges the apprentice waits or has ended, with its mark unchanged. -/
theorem apprentice_waits (fs : List (Event A)) (t : State A) :
    (apprentice false fs t).Quiet ∧ (apprentice false fs t).view.mark = t.mark := by
  induction fs generalizing t with
  | nil => exact ⟨trivial, rfl⟩
  | cons f fs ih =>
    cases hsig : f.sig with
    | sigbus =>
      rw [apprentice_sigbus _ _ _ hsig]
      exact ⟨trivial, by simp [view]; rfl⟩
    | sigill =>
      rw [apprentice_sigill _ _ _ hsig]
      split_ifs with hskip
      · have := ih (resume f (.ok, f.uc, t.enterApprentice f)).2
        simpa using this
      · obtain ⟨k, hk⟩ := recvRegisterInfo_reading (t.enterApprentice f)
          (fun r => judgeRecord false f r >>= apprenticeNext false f fs)
        rw [hk]
        exact ⟨trivial, by simp [view]⟩

/-- Without records the apprentice ends by itself or starves where it stands. -/
theorem follow_nil (fs : List (Event A)) (t : State A) :
    (follow fs [] t).Reached (apprentice false fs t) ∧ ¬ (follow fs [] t).Answered := by
  induction fs generalizing t with
  | nil => exact ⟨rfl, id⟩
  | cons f fs ih =>
    cases hsig : f.sig with
    | sigbus =>
      rw [apprentice_sigbus _ _ _ hsig]
      simp [follow, hsig, Ending.Reached, Ending.Answered]
    | sigill =>
      rw [apprentice_sigill _ _ _ hsig]
      simp only [follow, hsig]
      split_ifs with hskip
      · exact ih _
      · obtain ⟨k, hk⟩ := recvRegisterInfo_reading (t.enterApprentice f)
          (fun r => judgeRecord false f r >>= apprenticeNext false f fs)
        rw [hk]
        exact ⟨trivial, id⟩

/-! ### The two sides settle -/

section settles

variable {R : State A → State A → Prop}

/-- The pair comes to rest with the apprentice at `E` and the master successful if and only if the
apprentice answered its last record with `RES_END`. -/
def SettlesAs (R : State A → State A → Prop) (l r : Handler A (Leave × State A)) (E : Ending A) :
    Prop :=
  ∃ lf rf, Settles (Seen R) l r lf rf ∧ E.Reached rf ∧
    ((∃ s, lf = .ret (.jump .resEnd, s)) ↔ E.Answered)

/-- The master has ended by itself: the apprentice gets no further record. -/
theorem settlesAs_alone {l : Handler A (Leave × State A)} {fs : List (Event A)} {t : State A}
    (hl : l.Done) (hne : ∀ s, l ≠ .ret (.jump .resEnd, s))
    (hR : R l.view (apprentice false fs t).view) :
    SettlesAs R l (apprentice false fs t) (follow fs [] t) := by
  obtain ⟨hreach, hans⟩ := follow_nil fs t
  refine ⟨_, _, .leftDone hR hl (apprentice_waits fs t).1, hreach, ?_⟩
  simp [hne, hans]

/-- The apprentice has ended by itself: the master's packet stays where it is. -/
theorem settlesAs_unread {s : State A} {pkt : List Byte}
    {k : RisuResult → Handler A (Leave × State A)} {r : Handler A (Leave × State A)}
    {E : Ending A} (hlen : pkt.length < 2 ^ 31) (hR : R s r.view) (hd : r.Done)
    (hE : E.Reached r) (hans : ¬ E.Answered) :
    SettlesAs R (sendDataPkt s pkt >>= k) r E := by
  obtain ⟨k', hset⟩ := settles_unread (f := k) hlen hR hd
  exact ⟨_, _, hset, hE, by simp [hans]⟩

theorem judgeRecord_ok (trace : Bool) (f : Event A) (u : State A) :
    judgeRecord trace f (.ok, u) =
      match verdict f u with
      | .error d => .halt u d
      | .ok v => finishCompare trace v := rfl

/-- The last packet of a record: it is consumed, compared and answered. -/
theorem settlesAs_judged (hR : ∀ s t : State A, Agree s t → R s t) {s u : State A} {op : RisuOp}
    {e f : Event A} {es fs : List (Event A)} {rs : List (Record A)} {pkt : List Byte}
    {r : Handler A (Leave × State A)} (hlen : pkt.length < 2 ^ 31) (hq : r.Quiet)
    (hmark : s.mark = u.mark) (hcode : u.header.risuOp = op.code)
    (heat : ∀ (P : Handler A (Leave × State A) → Prop) (q : Handler A (Leave × State A)),
      (∀ w n k, w.mark = u.mark → P (.read w n k)) → P q →
      q = (judgeRecord false f (.ok, u) >>= apprenticeNext false f fs) →
      Eats P r (frame pkt) q)
    (hnext : ∀ v : RisuResult × A.Ucontext × State A, v.1 = .ok → op ≠ .testend →
      (masterFinish op s e).2.2.mark = v.2.2.mark →
      SettlesAs R (master false es (resume e (masterFinish op s e)).2)
        (apprentice false fs (resume f v).2) (follow fs rs (resume f v).2)) :
    SettlesAs R (sendDataPkt s pkt >>= fun res =>
        (if res ≠ .ok then .ret (res, e.uc, s) else .ret (masterFinish op s e)) >>=
          masterNext false e es) r (judge f u (follow fs rs)) := by
  have hPread : ∀ w n (k : List Byte → Handler A (Leave × State A)), w.mark = u.mark →
      R s (Process.read w n k).view := by
    intro w n k hw
    exact hR s w (.of_mark_eq (hmark.trans hw.symm))
  cases hv : verdict f u with
  | error d =>
    have hj : (judgeRecord false f (.ok, u) >>= apprenticeNext false f fs) = .halt u d := by
      simp [judgeRecord_ok, hv]
    have he := heat (fun p => R s p.view) (.halt u d) hPread (hR s u (.of_mark_eq hmark)) hj.symm
    obtain ⟨k, hset⟩ := settles_dies (f := fun res =>
      (if res ≠ .ok then .ret (res, e.uc, s) else .ret (masterFinish op s e)) >>=
        masterNext false e es) hlen hq he (done_halt u d)
    refine ⟨_, _, hset, ?_, ?_⟩
    · simp [judge, hv, Ending.Reached]
    · simp [judge, hv, Ending.Answered]
  | ok v =>
    have hj : (judgeRecord false f (.ok, u) >>= apprenticeNext false f fs) =
        (sendResponseByte v.2.2 (if v.1 = .ok then .ok else .resEnd) >>= fun _ =>
          apprenticeNext false f fs v) := by
      simp [judgeRecord_ok, hv, finishCompare, respond]
    have hview : ∀ (w : State A) (resp : RisuResult) (g : Unit → Handler A (Leave × State A)),
        (sendResponseByte w resp >>= g).view = w := fun _ _ _ => rfl
    rcases verdict_cases hv with ⟨hok, op', -, hcode', hne, hvm⟩ | ⟨hok, hbus, hvm⟩
    · obtain rfl : op = op' := RisuOp.code_injective (hcode.symm.trans hcode')
      obtain ⟨hfin, hfm⟩ := masterFinish_ok hne s e
      have hahead : ∀ w : State A, w.mark = v.2.2.mark → R s w := by
        intro w hw
        have hahead : w.mark = markAfter op s.mark := by rw [hw, hvm, hmark]
        exact hR s w (.of_ahead hahead)
      obtain ⟨lf, rf, hset, hreach, hiff⟩ :=
        hnext v hok hne (by rw [hfm, hvm, hmark])
      have he := heat (fun p => R s p.view) _ hPread
        (by rw [hj, hview]; exact hahead _ rfl) rfl
      rw [hj, if_pos hok] at he
      refine ⟨lf, rf, settles_exchange hlen hq he ?_ ?_, ?_, ?_⟩
      · simp only [apprenticeNext, if_pos hok]
        exact hahead _ (by rw [(apprentice_waits _ _).2, resume_mark])
      · simpa [masterNext, apprenticeNext, hok, hfin, RisuResult.ofByte, RisuResult.toByte]
          using hset
      · simpa [judge, hv, hok] using hreach
      · simpa [judge, hv, hok] using hiff
    · have hsame : ∀ w : State A, w.mark = v.2.2.mark → R s w := by
        intro w hw
        exact hR s w (.of_mark_eq (by rw [hw, hvm, hmark]))
      have he := heat (fun p => R s p.view) _ hPread
        (by rw [hj, hview]; exact hsame _ rfl) rfl
      rw [hj, if_neg hok] at he
      have hlast : apprenticeNext false f fs v = .ret (.jump v.1, (resume f v).2) := by
        simp [apprenticeNext, hok]
      refine ⟨.ret (.jump .resEnd, (resume e (.resEnd, e.uc, s)).2),
        .ret (.jump v.1, (resume f v).2), settles_exchange hlen hq he ?_ ?_, ?_, ?_⟩
      · rw [hlast]
        exact hsame _ (by simp [view])
      · rw [hlast, ofByte_resEnd, if_pos (by decide), ret_bind, masterNext_resEnd]
        exact .leftDone (hR _ _ (.of_mark_eq (by simp [view, hvm, hmark]))) trivial trivial
      · simp [judge, hv, hok, Ending.Reached]
      · simp [judge, hv, hok, Ending.Answered, hbus]

/-- The master from the moment a record is ready, with the second buffer it is going to write. -/
def offer (s : State A) (rec : Record A) (packet : Option (List Byte)) (e : Event A)
    (es : List (Event A)) : Handler A (Leave × State A) :=
  sendDataPkt s rec.wireHeader.bytes >>= fun res =>
    (if res ≠ .ok then .ret (res, e.uc, s)
      else
        match packet with
        | none => .ret (masterFinish rec.op s e)
        | some pkt =>
          sendDataPkt s pkt >>= fun res =>
            if res ≠ .ok then .ret (res, e.uc, s) else .ret (masterFinish rec.op s e)) >>=
      masterNext false e es

/-- The apprentice from the moment it waits for a record. -/
def await (u : State A) (f : Event A) (fs : List (Event A)) : Handler A (Leave × State A) :=
  recvRegisterInfo false u >>= fun r => judgeRecord false f r >>= apprenticeNext false f fs

theorem master_offer {e : Event A} {es : List (Event A)} {s : State A} {op : RisuOp}
    (hsig : e.sig = .sigill) (hskip : ¬ e.Skipped s.isSetup)
    (hop : RisuOp.ofCode e.code = some op) :
    master false (e :: es) s =
      offer (masterRecord op (s.enterMaster e) e) (recordOf op (s.enterMaster e) e)
        (masterPacket op (masterRecord op (s.enterMaster e) e) e) e es := by
  rw [master_sigill _ _ _ hsig, if_neg hskip, hop]
  simp only [sendRecord_eq, bind_assoc]
  rfl

theorem Record.wireHeader_bytes_lt (rec : Record A) : rec.wireHeader.bytes.length < 2 ^ 31 := by
  rw [Header.bytes_length]
  exact A.sizeofHeader_lt

theorem await_quiet (u : State A) (f : Event A) (fs : List (Event A)) : (await u f fs).Quiet := by
  obtain ⟨k, hk⟩ := recvRegisterInfo_reading u
    (fun r => judgeRecord false f r >>= apprenticeNext false f fs)
  rw [await, hk]
  trivial

theorem judgeRecord_badIo (f : Event A) (fs : List (Event A)) (u : State A) :
    (judgeRecord false f (.badIo, u) >>= apprenticeNext false f fs) =
      (sendResponseByte u .resEnd >>= fun _ =>
        .ret (.jump .badIo, (resume f (.badIo, f.uc, u)).2)) := by
  simp [judgeRecord, finishCompare, respond, apprenticeNext]

/-- A packet of the wrong length is read anyway, refused and answered. -/
theorem settlesAs_badIo {s u : State A} {e f : Event A} {es fs : List (Event A)} {pkt : List Byte}
    {next : Handler A (RisuResult × A.Ucontext × State A)} {r : Handler A (Leave × State A)}
    (hlen : pkt.length < 2 ^ 31) (hq : r.Quiet)
    (he : Eats (fun p => R s p.view) r (frame pkt)
      (judgeRecord false f (.badIo, u) >>= apprenticeNext false f fs))
    (hR : R s (resume f (.badIo, f.uc, u)).2)
    (hleft : R (resume e (.resEnd, e.uc, s)).2 (resume f (.badIo, f.uc, u)).2) :
    SettlesAs R (sendDataPkt s pkt >>= fun res =>
        (if res ≠ .ok then .ret (res, e.uc, s) else next) >>= masterNext false e es) r
      (.left (.jump .badIo) (resume f (.badIo, f.uc, u)).2) := by
  rw [judgeRecord_badIo] at he
  refine ⟨.ret (.jump .resEnd, (resume e (.resEnd, e.uc, s)).2),
    .ret (.jump .badIo, (resume f (.badIo, f.uc, u)).2), settles_exchange hlen hq he hR ?_, rfl, ?_⟩
  · rw [ofByte_resEnd, if_pos (by decide), ret_bind, masterNext_resEnd]
    exact .leftDone hleft trivial trivial
  · simp [Ending.Answered]

/-- The apprentice waits for a block that the master does not send. -/
theorem settlesAs_missing (hR : ∀ s t : State A, R s t)
    (f : Event A) (fs es : List (Event A)) (s u : State A) :
    SettlesAs R (master false es s)
      (recvMemblock false u >>= fun r => judgeRecord false f r >>= apprenticeNext false f fs)
      (unsent f u (records es s)) := by
  obtain ⟨k, hk⟩ : ∃ k, (recvMemblock false u >>= fun r =>
      judgeRecord false f r >>= apprenticeNext false f fs) = .read u 4 k := by
    rw [recvMemblock, bind_assoc]
    exact recvDataPkt_reading u _ _
  have halone : ∀ l : Handler A (Leave × State A), l.Done → (∀ s, l ≠ .ret (.jump .resEnd, s)) →
      SettlesAs R l (recvMemblock false u >>= fun r =>
        judgeRecord false f r >>= apprenticeNext false f fs) .starved := by
    intro l hd hne
    rw [hk]
    exact ⟨_, _, .leftDone (hR _ _) hd trivial, trivial, by simp [hne, Ending.Answered]⟩
  induction es generalizing s with
  | nil => exact halone _ trivial (by simp [master])
  | cons e es ih =>
    cases hsig : e.sig with
    | sigbus =>
      rw [master_sigbus _ _ _ hsig, records]
      simp only [hsig]
      exact halone _ trivial (by simp)
    | sigill =>
      by_cases hskip : e.Skipped s.isSetup
      · rw [master_sigill _ _ _ hsig, if_pos hskip, records]
        simp only [hsig, if_pos hskip]
        exact ih _
      · cases hop : RisuOp.ofCode e.code with
        | none =>
          rw [master_sigill _ _ _ hsig, if_neg hskip, records]
          simp only [hsig, if_neg hskip, hop]
          exact halone _ trivial (by simp)
        | some op =>
          rw [master_offer hsig hskip hop, records]
          simp only [hsig, if_neg hskip, hop]
          have hlen := (recordOf op (s.enterMaster e) e).wireHeader_bytes_lt
          have hne : (recordOf op (s.enterMaster e) e).wireHeader.bytes.length ≠ memblockLen := by
            rw [Header.bytes_length]
            rcases A.ptrBytes_eq with h | h <;>
              simp [Arch.sizeofHeader, Arch.headerPad, h, memblockLen]
          have he := eats_recvMemblock_bad
            (P := fun p => R (masterRecord op (s.enterMaster e) e) p.view) (s := u)
            (fun _ _ => hR _ _) hlen hne
            (fun r => judgeRecord false f r >>= apprenticeNext false f fs) (hR _ _)
          exact settlesAs_badIo hlen (by rw [hk]; trivial) he (hR _ _) (hR _ _)

section offer

variable {s u : State A} {rec : Record A} {e f : Event A} {es fs : List (Event A)}
variable {packet : Option (List Byte)}

/-- The apprentice waiting for the payload waits at the state that holds the header. -/
theorem recvPayload_reading (u : State A) (op : RisuOp)
    (g : RisuResult × State A → Handler A (Leave × State A)) :
    ∃ k, ((if op.isRegister then recvReginfo false u else recvMemblock false u) >>= g) =
      .read u 4 k := by
  split_ifs
  · rw [recvReginfo, bind_assoc]
    exact recvDataPkt_reading u _ _
  · rw [recvMemblock, bind_assoc]
    exact recvDataPkt_reading u _ _

theorem recvPayload_quiet (u : State A) (op : RisuOp)
    (g : RisuResult × State A → Handler A (Leave × State A)) :
    ((if op.isRegister then recvReginfo false u else recvMemblock false u) >>= g).Quiet := by
  obtain ⟨k, hk⟩ := recvPayload_reading u op g
  exact hk ▸ trivial

/-- The header of a record with a payload: it is acknowledged, and nothing else changes. -/
theorem settlesAs_header {E : Ending A} (hp : rec.op.hasPayload = true)
    (hR : ∀ w : State A, w.mark = u.mark → R s w)
    (hset : SettlesAs R
      ((match packet with
        | none => .ret (masterFinish rec.op s e)
        | some pkt =>
          sendDataPkt s pkt >>= fun res =>
            if res ≠ .ok then .ret (res, e.uc, s) else .ret (masterFinish rec.op s e)) >>=
        masterNext false e es)
      ((if rec.op.isRegister then recvReginfo false (u.setHeader rec.header)
        else recvMemblock false (u.setHeader rec.header)) >>= fun r =>
          judgeRecord false f r >>= apprenticeNext false f fs) E) :
    SettlesAs R (offer s rec packet e es) (await u f fs) E := by
  obtain ⟨lf, rf, hset, hE⟩ := hset
  have hafter : (afterHeader false (u.setHeader rec.header) rec.op >>= fun r =>
      judgeRecord false f r >>= apprenticeNext false f fs) =
      (sendResponseByte (u.setHeader rec.header) .ok >>= fun _ =>
        (if rec.op.isRegister then recvReginfo false (u.setHeader rec.header)
          else recvMemblock false (u.setHeader rec.header)) >>= fun r =>
            judgeRecord false f r >>= apprenticeNext false f fs) := by
    simp [afterHeader, hp, respond]
  have he := eats_recvRegisterInfo (P := fun p => R s p.view) (s := u) (fun n k => hR u rfl)
    (headerArchToHost_wireHeader rec)
    (fun r => judgeRecord false f r >>= apprenticeNext false f fs)
    (by rw [hafter]; exact hR _ rfl)
  rw [hafter] at he
  refine ⟨lf, rf, settles_exchange rec.wireHeader_bytes_lt (await_quiet u f fs) he ?_ ?_, hE⟩
  · obtain ⟨k, hk⟩ := recvPayload_reading (u.setHeader rec.header) rec.op
      (fun r => judgeRecord false f r >>= apprenticeNext false f fs)
    exact hk ▸ hR _ rfl
  · rw [ofByte_ok, if_neg (by decide)]
    exact hset

/-- **One record, from offer to answer.**  `hnext` is what is known of the two sides after an
accepted record. -/
theorem settlesAs_offer (hR : ∀ s t : State A, Agree s t → R s t) {rs : List (Record A)}
    (hsound : rec.Sound) (hmiss : rec.payload.isMissing = false) (hmark : s.mark = u.mark)
    (hnext : ∀ v : RisuResult × A.Ucontext × State A, v.1 = .ok → rec.op ≠ .testend →
      (masterFinish rec.op s e).2.2.mark = v.2.2.mark →
      SettlesAs R (master false es (resume e (masterFinish rec.op s e)).2)
        (apprentice false fs (resume f v).2) (follow fs rs (resume f v).2)) :
    SettlesAs R (offer s rec rec.payload.packet e es) (await u f fs)
      (judge f (storeRecord u rec) (follow fs rs)) := by
  have hcode : (storeRecord u rec).header.risuOp = rec.op.code := by
    rw [storeRecord_header]
    rfl
  have hmark' : s.mark = (storeRecord u rec).mark := by simp [hmark]
  by_cases hp : rec.op.hasPayload = true
  · -- two packets: the header is acknowledged first
    refine settlesAs_header hp (fun w hw => hR s w (.of_mark_eq (by rw [hw, hmark]))) ?_
    rw [hsound.packet hmiss hp]
    simp only [bind_assoc]
    refine settlesAs_judged hR hsound.payload_lt (recvPayload_quiet _ _ _) hmark' hcode ?_ hnext
    intro P q hP hPq heq
    subst heq
    exact eats_recvPayload (P := P) (s := u) (fun n k => hP _ n k (by simp)) hsound hp hmiss
      (fun r => judgeRecord false f r >>= apprenticeNext false f fs) hPq
  · -- one packet
    have hpkt := hsound.no_packet hp u
    unfold offer
    simp only [hpkt.1]
    refine settlesAs_judged hR rec.wireHeader_bytes_lt (await_quiet u f fs) hmark' hcode ?_ hnext
    intro P q hP hPq heq
    subst heq
    have hafter : (afterHeader false (u.setHeader rec.header) rec.op >>= fun r =>
        judgeRecord false f r >>= apprenticeNext false f fs) =
        (judgeRecord false f (.ok, storeRecord u rec) >>= apprenticeNext false f fs) := by
      simp [afterHeader, hp, hpkt.2]
    have h := eats_recvRegisterInfo (P := P) (s := u) (fun n k => hP _ n k (by simp))
      (headerArchToHost_wireHeader rec)
      (fun r => judgeRecord false f r >>= apprenticeNext false f fs) (by rw [hafter]; exact hPq)
    rwa [hafter] at h

/-- A header that announces a block the master does not send. -/
theorem settlesAs_offer_missing (hR : ∀ s t : State A, R s t)
    (hsound : rec.Sound) (hmiss : rec.payload.isMissing = true) :
    SettlesAs R (offer s rec none e es) (await u f fs)
      (unsent f (u.setHeader rec.header) (records es (resume e (masterFinish rec.op s e)).2)) := by
  have hpl : rec.payload = .missing := by
    cases h : rec.payload <;> simp [h, Payload.isMissing] at hmiss ⊢
  simp only [Record.Sound, hpl] at hsound
  refine settlesAs_header (by simp [hsound, RisuOp.hasPayload]) (fun w _ => hR s w) ?_
  have hok := (masterFinish_ok (show rec.op ≠ .testend by simp [hsound]) s e).1
  simp only [ret_bind, masterNext, if_pos hok]
  rw [if_neg (by simp [hsound, RisuOp.isRegister])]
  exact settlesAs_missing hR f fs es _ _

/-- A payload of another length than announced is consumed and refused. -/
theorem eats_refusePayload {P : Handler A (Leave × State A) → Prop}
    (hP : ∀ n k, P (.read (u.setHeader rec.header) n k)) {pkt : List Byte}
    (hp : rec.op.hasPayload = true) (hlen : pkt.length < 2 ^ 31)
    (hne : pkt.length ≠ A.announced rec.op) (g : RisuResult × State A → Handler A (Leave × State A))
    (hg : P (g (.badIo, (u.setHeader rec.header).refusePayload rec.op))) :
    Eats P ((if rec.op.isRegister then recvReginfo false (u.setHeader rec.header)
        else recvMemblock false (u.setHeader rec.header)) >>= g) (frame pkt)
      (g (.badIo, (u.setHeader rec.header).refusePayload rec.op)) := by
  by_cases hreg : rec.op.isRegister = true
  · have hrec : reginfoReceived (u.setHeader rec.header) (.badIo, []) =
        (.badIo, (u.setHeader rec.header).refusePayload rec.op) := by
      simp [reginfoReceived, State.refusePayload, hreg]
    rw [← hrec] at hg ⊢
    rw [if_pos hreg]
    refine eats_recvReginfo_bad hP hlen ?_ g hg
    rwa [State.setHeader_header, Record.header_size]
  · have hmem : rec.op = .comparemem := by simpa [RisuOp.hasPayload, hreg] using hp
    have hrec : (u.setHeader rec.header).refusePayload rec.op = u.setHeader rec.header :=
      if_neg hreg
    rw [hrec] at hg ⊢
    rw [if_neg hreg]
    refine eats_recvMemblock_bad hP hlen ?_ g hg
    rwa [hmem] at hne

/-- A payload that is written in another length than its header announces. -/
theorem settlesAs_offer_distorted (hR : ∀ s t : State A, Agree s t → R s t) {pkt : List Byte}
    (hdist : A.distorts rec.op = true) (hpkt : pkt.length = A.writtenSize rec.op)
    (hmark : s.mark = u.mark) :
    SettlesAs R (offer s rec (some pkt) e es) (await u f fs)
      (distorted f (u.setHeader rec.header) rec.op) := by
  have hsame : ∀ w : State A, w.mark = u.mark → R s w := fun w hw =>
    hR s w (.of_mark_eq (by rw [hw, hmark]))
  have hp := Arch.hasPayload_of_distorts hdist
  have hne : pkt.length ≠ A.announced rec.op := by
    rw [hpkt]
    simpa [Arch.distorts] using hdist
  refine settlesAs_header hp hsame ?_
  simp only [bind_assoc]
  by_cases hlen : A.writtenSize rec.op < 2 ^ 31
  · rw [distorted, if_pos hlen]
    rw [← hpkt] at hlen
    have he := eats_refusePayload (P := fun p => R s p.view) (u := u)
      (fun _ _ => hsame _ (setHeader_mark _ _)) hp hlen hne
      (fun r => judgeRecord false f r >>= apprenticeNext false f fs)
      (by rw [judgeRecord_badIo]; exact hsame _ (by simp [view, sendResponseByte]))
    refine settlesAs_badIo hlen (recvPayload_quiet _ _ _) he (hsame _ (by simp)) ?_
    exact hR _ _ (.of_mark_eq (by simp [hmark]))
  · have hfail : sendDataPkt s pkt = .halt s .exitFailure := by
      rw [sendDataPkt, if_neg (by rw [hpkt]; exact hlen)]
    rw [distorted, if_neg hlen, hfail, halt_bind]
    obtain ⟨k, hk⟩ := recvPayload_reading (u.setHeader rec.header) rec.op
      (fun r => judgeRecord false f r >>= apprenticeNext false f fs)
    rw [hk]
    have hR' : R s (u.setHeader rec.header) := hsame _ (setHeader_mark _ _)
    exact ⟨_, _, .leftDone hR' trivial trivial, trivial, by simp [Ending.Answered]⟩

end offer

theorem follow_sigill {f : Event A} (hsig : f.sig = .sigill) (fs : List (Event A))
    (rec : Record A) (rs : List (Record A)) (t : State A) :
    follow (f :: fs) (rec :: rs) t =
      if f.Skipped t.isSetup then
        follow fs (rec :: rs) (resume f (.ok, f.uc, t.enterApprentice f)).2
      else if rec.payload.isMissing then
        unsent f ((t.enterApprentice f).setHeader rec.header) rs
      else if A.distorts rec.op then
        distorted f ((t.enterApprentice f).setHeader rec.header) rec.op
      else judge f (storeRecord (t.enterApprentice f) rec) (follow fs rs) := by
  rw [follow.eq_def]
  simp only [hsig]

/-- One event of the master against all that is left of the apprentice's events. -/
theorem settlesAs_event (hR : ∀ s t : State A, Agree s t → R s t)
    {e : Event A} {es : List (Event A)} {s : State A} {rec : Record A} (hsound : rec.Sound)
    {packet : Option (List Byte)} (hpacket : rec.Packet packet)
    (hmiss : rec.payload.isMissing = false ∨ ∀ s t : State A, R s t)
    (hrest : ∀ (fs : List (Event A)) (t : State A),
      (masterFinish rec.op s e).2.2.mark = t.mark →
      SettlesAs R (master false es (resume e (masterFinish rec.op s e)).2) (apprentice false fs t)
        (follow fs (records es (resume e (masterFinish rec.op s e)).2) t))
    (fs : List (Event A)) (t : State A) (hmark : s.mark = t.mark) :
    SettlesAs R (offer s rec packet e es) (apprentice false fs t)
      (follow fs (rec :: if (masterFinish rec.op s e).1 = .ok then
        records es (resume e (masterFinish rec.op s e)).2 else []) t) := by
  induction fs generalizing t with
  | nil =>
    exact settlesAs_unread rec.wireHeader_bytes_lt (hR _ _ (.of_mark_eq hmark)) trivial rfl id
  | cons f fs ih =>
    cases hfsig : f.sig with
    | sigbus =>
      rw [apprentice_sigbus _ _ _ hfsig]
      refine settlesAs_unread rec.wireHeader_bytes_lt (hR _ _ (.of_mark_eq ?_)) trivial ?_ ?_
      · simp only [view, resume_mark, hmark]
        rfl
      · simp [follow, hfsig, Ending.Reached]
      · simp [follow, hfsig, Ending.Answered]
    | sigill =>
      rw [apprentice_sigill _ _ _ hfsig, follow_sigill hfsig]
      by_cases hskip : f.Skipped t.isSetup
      · rw [if_pos hskip, if_pos hskip]
        exact ih _ (by simp [hmark])
      · rw [if_neg hskip, if_neg hskip]
        cases hmissing : rec.payload.isMissing with
        | true =>
          have hall := hmiss.resolve_left (by simp [hmissing])
          rw [if_pos rfl, if_pos (masterFinish_ok (rec.ne_testend_of_missing hsound hmissing) s e).1]
          have hnone : packet = none := by
            have := hpacket.isSome
            cases hp : rec.payload <;> simp [hp, Payload.isMissing] at hmissing
            simpa [hp, Payload.packet] using this
          rw [hnone]
          exact settlesAs_offer_missing hall hsound hmissing
        | false =>
          rw [if_neg (by decide)]
          cases hdist : A.distorts rec.op with
          | true =>
            have hsome := hpacket.isSome
            rw [hsound.packet hmissing (Arch.hasPayload_of_distorts hdist)] at hsome
            obtain ⟨pkt, hpkt⟩ := Option.isSome_iff_exists.mp hsome
            rw [if_pos rfl, hpkt]
            exact settlesAs_offer_distorted hR hdist (hpacket.length pkt hpkt) (by simp [hmark])
          | false =>
            rw [if_neg (by decide), hpacket.whole hdist]
            refine settlesAs_offer hR hsound hmissing (by simp [hmark]) ?_
            intro v _ hne hvm
            rw [if_pos (masterFinish_ok hne s e).1]
            exact hrest fs _ (by rw [resume_mark, hvm])

/-- **The two programs settle**: for any two event sequences, the apprentice comes to the ending
that `follow` computes from the master's records, and the master succeeds exactly when the
apprentice told it to exit. -/
theorem settles_session (hR : ∀ s t : State A, Agree s t → R s t)
    (es : List (Event A)) (s : State A)
    (hready : memblockReady s.memblock es = true ∨ ∀ s t : State A, R s t)
    (fs : List (Event A)) (t : State A) (hmark : s.mark = t.mark) :
    SettlesAs R (master false es s) (apprentice false fs t) (follow fs (records es s) t) := by
  induction es generalizing s fs t with
  | nil =>
    exact settlesAs_alone trivial (by simp [master])
      (hR _ _ (.of_mark_eq (by rw [(apprentice_waits fs t).2, ← hmark]; rfl)))
  | cons e es ih =>
    have hidle : ∀ l : Handler A (Leave × State A), l.view.mark = s.mark →
        R l.view (apprentice false fs t).view := by
      intro l hl
      exact hR _ _ (.of_mark_eq (by rw [hl, (apprentice_waits fs t).2, hmark]))
    cases hsig : e.sig with
    | sigbus =>
      rw [master_sigbus _ _ _ hsig, records]
      simp only [hsig]
      refine settlesAs_alone trivial (by simp) (hidle _ ?_)
      simp only [view, resume_mark]
      rfl
    | sigill =>
      by_cases hskip : e.Skipped s.isSetup
      · rw [master_sigill _ _ _ hsig, if_pos hskip, records]
        simp only [hsig, if_pos hskip]
        refine ih _ (hready.imp_left fun h => ?_) fs t (by simp [hmark])
        have hop : RisuOp.ofCode e.code = some .sigill := by rw [hskip.1]; rfl
        simpa [memblockReady, hop, State.enterMaster] using h
      · cases hop : RisuOp.ofCode e.code with
        | none =>
          rw [master_sigill _ _ _ hsig, if_neg hskip, records]
          simp only [hsig, if_neg hskip, hop]
          exact settlesAs_alone trivial (by simp) (hidle _ (by simp [view]))
        | some op =>
          rw [master_offer hsig hskip hop, records]
          simp only [hsig, if_neg hskip, hop]
          have hmem : memblockReady s.memblock (e :: es) = true →
              memblockReady (resume e (masterFinish op
                (masterRecord op (s.enterMaster e) e) e)).2.memblock es = true ∧
              (recordOf op (s.enterMaster e) e).payload.isMissing = false := by
            intro h
            rw [resume_memblock]
            exact masterFinish_memblock hop (by simp [State.enterMaster])
              (by simpa [State.enterMaster] using h)
          refine settlesAs_event hR (recordOf_sound _ _ _) (masterPacket_packet _ _ _)
            (hready.imp_left fun h => (hmem h).2) ?_ fs t (by simp [hmark])
          intro fs t hm
          exact ih _ (hready.imp_left fun h => (hmem h).1) fs t (by rw [resume_mark]; exact hm)

end settles

end Risu
