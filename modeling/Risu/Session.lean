import Risu.Record

/-!
# Sessions: what the two event sequences decide

Both sides' event sequences are taken as given.  Two pure functions say what a session amounts to:

* `records es s` — the records the master produces, up to the event at which it stops by itself;
* `follow fs rs t` — the apprentice's way through its events against those records, ending in
  `Ending`: it leaves the image, dies, or waits for a record that never comes.

The lemmas of this module run one event of either loop (`master_sigill`, `apprentice_sigill`) and
say what an accepted record changes on each side (`masterFinish_ok`, `verdict_cases`).
-/

namespace Risu

open Lib Lib.Process

variable {A : Arch}

/-! ### Entering a handler -/

/-- The master's state after `signal_count++`, `reginfo_init` and the count of illegal
instructions. -/
def State.enterMaster (s : State A) (e : Event A) : State A :=
  State.countSigill
    { s with signalCount := s.signalCount + 1, riMaster := A.reginfoInit e.uc } e.code

/-- The apprentice's state at the same point. -/
def State.enterApprentice (s : State A) (e : Event A) : State A :=
  State.countSigill
    { s with signalCount := s.signalCount + 1, riApprentice := A.reginfoInit e.uc } e.code

section countSigill

variable (s : State A) (c : BitVec 32)

@[simp] theorem countSigill_isSetup : (s.countSigill c).isSetup = s.isSetup := by
  unfold State.countSigill; split <;> rfl

@[simp] theorem countSigill_completed : (s.countSigill c).completed = s.completed := by
  unfold State.countSigill; split <;> rfl

@[simp] theorem countSigill_memblock : (s.countSigill c).memblock = s.memblock := by
  unfold State.countSigill; split <;> rfl

@[simp] theorem countSigill_riMaster : (s.countSigill c).riMaster = s.riMaster := by
  unfold State.countSigill; split <;> rfl

@[simp] theorem countSigill_riApprentice : (s.countSigill c).riApprentice = s.riApprentice := by
  unfold State.countSigill; split <;> rfl

@[simp] theorem countSigill_signalCount : (s.countSigill c).signalCount = s.signalCount := by
  unfold State.countSigill; split <;> rfl

end countSigill

/-- What agreement between the two sides is about. -/
def State.mark (s : State A) : List (RisuOp × Bool) × Bool := (s.completed, s.isSetup)

@[simp] theorem enterMaster_mark (s : State A) (e : Event A) : (s.enterMaster e).mark = s.mark := by
  simp [State.mark, State.enterMaster]

@[simp] theorem enterApprentice_mark (s : State A) (e : Event A) :
    (s.enterApprentice e).mark = s.mark := by
  simp [State.mark, State.enterApprentice]

@[simp] theorem setHeader_mark (s : State A) (h : Header A) : (s.setHeader h).mark = s.mark := rfl

@[simp] theorem masterRecord_mark (op : RisuOp) (s : State A) (e : Event A) :
    (masterRecord op s e).mark = s.mark := rfl

@[simp] theorem storeRecord_mark (s : State A) (r : Record A) : (storeRecord s r).mark = s.mark := by
  rw [storeRecord]
  split <;> rfl

section resume

variable (e : Event A) (r : RisuResult × A.Ucontext × State A)

@[simp] theorem resume_mark : (resume e r).2.mark = r.2.2.mark := by
  rw [resume]
  split <;> rfl

@[simp] theorem resume_fst : (resume e r).1 = r.1 := by
  rw [resume]
  split <;> rfl

@[simp] theorem resume_memblock : (resume e r).2.memblock = r.2.2.memblock := by
  rw [resume]
  split <;> rfl

@[simp] theorem resume_completed : (resume e r).2.completed = r.2.2.completed := by
  rw [resume]
  split <;> rfl

@[simp] theorem resume_isSetup : (resume e r).2.isSetup = r.2.2.isSetup := by
  rw [resume]
  split <;> rfl

@[simp] theorem resume_signalCount : (resume e r).2.signalCount = r.2.2.signalCount := by
  rw [resume]
  split <;> rfl

end resume

/-! ### One event of either loop -/

/-- What the master does after a handler call: next event, or leave. -/
def masterNext (trace : Bool) (e : Event A) (es : List (Event A))
    (r : RisuResult × A.Ucontext × State A) : Handler A (Leave × State A) :=
  if r.1 = .ok then master trace es (resume e r).2 else .ret (.jump r.1, (resume e r).2)

def apprenticeNext (trace : Bool) (e : Event A) (es : List (Event A))
    (r : RisuResult × A.Ucontext × State A) : Handler A (Leave × State A) :=
  if r.1 = .ok then apprentice trace es (resume e r).2 else .ret (.jump r.1, (resume e r).2)

theorem masterNext_resEnd (trace : Bool) (e : Event A) (es : List (Event A)) (uc : A.Ucontext)
    (s : State A) :
    masterNext trace e es (.resEnd, uc, s) =
      .ret (.jump .resEnd, (resume e (.resEnd, uc, s)).2) := by
  simp [masterNext]

theorem ofByte_resEnd : RisuResult.ofByte RisuResult.resEnd.toByte = .resEnd := by decide

theorem ofByte_ok : RisuResult.ofByte RisuResult.ok.toByte = .ok := by decide

section loops

variable (trace : Bool) {e : Event A} (es : List (Event A)) (s : State A)

theorem master_sigbus (h : e.sig = .sigbus) :
    master trace (e :: es) s = .ret (.jump .sigbus,
      (resume e (.sigbus, e.uc, { s with signalCount := s.signalCount + 1 })).2) := by
  simp [master, masterSigill, h]

theorem master_sigill (h : e.sig = .sigill) :
    master trace (e :: es) s =
      if e.Skipped s.isSetup then master trace es (resume e (.ok, e.uc, s.enterMaster e)).2
      else
        match RisuOp.ofCode e.code with
        | none => .halt (s.enterMaster e) .abort
        | some op => sendRecord trace op (masterRecord op (s.enterMaster e) e) e >>=
            masterNext trace e es := by
  have hstate : State.countSigill { s with
      signalCount := s.signalCount + 1, riMaster := A.reginfoInit e.uc } e.code =
      s.enterMaster e := rfl
  simp only [master, masterSigill, h, sendRegisterInfo, hstate]
  have hsetup : (s.enterMaster e).isSetup = s.isSetup := by simp [State.enterMaster]
  rw [hsetup]
  by_cases hskip : e.Skipped s.isSetup
  · rw [if_pos hskip, if_pos hskip]
    simp
  · rw [if_neg hskip, if_neg hskip]
    cases RisuOp.ofCode e.code with
    | none => rfl
    | some op =>
      simp only [bind_assoc, pure_eq, ret_bind, resume_fst]
      rfl

theorem apprentice_sigbus (h : e.sig = .sigbus) :
    apprentice trace (e :: es) s = .ret (.jump .sigbus,
      (resume e (.sigbus, e.uc, { s with signalCount := s.signalCount + 1 })).2) := by
  simp [apprentice, apprenticeSigill, h]

theorem apprentice_sigill (h : e.sig = .sigill) :
    apprentice trace (e :: es) s =
      if e.Skipped s.isSetup then apprentice trace es (resume e (.ok, e.uc, s.enterApprentice e)).2
      else recvRegisterInfo trace (s.enterApprentice e) >>= fun r =>
        judgeRecord trace e r >>= apprenticeNext trace e es := by
  have hstate : State.countSigill { s with
      signalCount := s.signalCount + 1, riApprentice := A.reginfoInit e.uc } e.code =
      s.enterApprentice e := rfl
  simp only [apprentice, apprenticeSigill, h, recvAndCompareRegisterInfo, hstate]
  have hsetup : (s.enterApprentice e).isSetup = s.isSetup := by simp [State.enterApprentice]
  rw [hsetup]
  by_cases hskip : e.Skipped s.isSetup
  · rw [if_pos hskip, if_pos hskip]
    simp
  · rw [if_neg hskip, if_neg hskip]
    simp only [bind_assoc, pure_eq, ret_bind, resume_fst]
    rfl

end loops

/-- The two programs, before the first event. -/
def session (es fs : List (Event A)) :
    Duplex (State A) (State A) Death (Leave × State A) (Leave × State A) :=
  .start (master false es (.start A)) (apprentice false fs (.start A))

/-! ### The master's records and the apprentice's way through them -/

/-- The records the master produces, up to the event at which it stops by itself. -/
def records : List (Event A) → State A → List (Record A)
  | [], _ => []
  | e :: es, s =>
    match e.sig with
    | .sigbus => []
    | .sigill =>
      if e.Skipped s.isSetup then records es (resume e (.ok, e.uc, s.enterMaster e)).2
      else
        match RisuOp.ofCode e.code with
        | none => []
        | some op =>
          let r := masterFinish op (masterRecord op (s.enterMaster e) e) e
          recordOf op (s.enterMaster e) e ::
            if r.1 = .ok then records es (resume e r).2 else []

/-- How the apprentice ends. -/
inductive Ending (A : Arch) where
  | left (l : Leave) (s : State A)
  | died (d : Death) (s : State A)
  | starved

/-- The comparison of a stored record with the apprentice's event `f`, and `k` when it passes. -/
def judge (f : Event A) (u : State A) (k : State A → Ending A) : Ending A :=
  match verdict f u with
  | .error d => .died d u
  | .ok v => if v.1 = .ok then k (resume f v).2 else .left (.jump v.1) (resume f v).2

/-- The wait for a block that was announced and is not sent: the next header arrives in its place,
and has the wrong length. -/
def unsent (f : Event A) (u : State A) : List (Record A) → Ending A
  | [] => .starved
  | _ :: _ => .left (.jump .badIo) (resume f (.badIo, f.uc, u)).2

/-- The apprentice's state after a payload of another length than announced. -/
def State.refusePayload (s : State A) (op : RisuOp) : State A :=
  if op.isRegister then (reginfoReceived s (.badIo, [])).2 else s

@[simp] theorem refusePayload_mark (s : State A) (op : RisuOp) :
    (s.refusePayload op).mark = s.mark := by
  rw [State.refusePayload]
  split_ifs
  · simp [reginfoReceived, State.mark]
  · rfl

/-- The wait for a payload that is written in another length than announced: it is read anyway and
refused, unless its length is negative as an `int` and the master fails to write it. -/
def distorted (f : Event A) (u : State A) (op : RisuOp) : Ending A :=
  if A.writtenSize op < 2 ^ 31 then
    .left (.jump .badIo) (resume f (.badIo, f.uc, u.refusePayload op)).2
  else .starved

/-- The apprentice's way through its events, against the records of the master. -/
def follow : List (Event A) → List (Record A) → State A → Ending A
  | [], _, t => .left .returned t
  | f :: fs, rs, t =>
    match f.sig with
    | .sigbus =>
      .left (.jump .sigbus)
        (resume f (.sigbus, f.uc, { t with signalCount := t.signalCount + 1 })).2
    | .sigill =>
      if f.Skipped t.isSetup then follow fs rs (resume f (.ok, f.uc, t.enterApprentice f)).2
      else
        match rs with
        | [] => .starved
        | r :: rs =>
          if r.payload.isMissing then unsent f ((t.enterApprentice f).setHeader r.header) rs
          else if A.distorts r.op then
            distorted f ((t.enterApprentice f).setHeader r.header) r.op
          else judge f (storeRecord (t.enterApprentice f) r) (follow fs rs)

/-- The apprentice's process has come to this ending. -/
def Ending.Reached (p : Handler A (Leave × State A)) : Ending A → Prop
  | .left l s => p = .ret (l, s)
  | .died d s => p = .halt s d
  | .starved => p.Reading

/-- An ending that does not starve is reached in one place only. -/
theorem Ending.Reached.unique {E : Ending A} {p q : Handler A (Leave × State A)}
    (hp : E.Reached p) (hq : E.Reached q) (hE : E ≠ .starved) : p = q := by
  cases E with
  | left l s => exact Eq.trans hp (Eq.symm hq)
  | died d s => exact Eq.trans hp (Eq.symm hq)
  | starved => exact absurd rfl hE

/-- The apprentice stopped on a record, and so told the master to exit. -/
def Ending.Answered : Ending A → Prop
  | .left (.jump r) _ => r ≠ .sigbus
  | _ => False

/-- Every `COMPAREMEM` finds `memblock` set by an earlier `SETMEMBLOCK`. -/
def memblockReady : Option A.Ptr → List (Event A) → Bool
  | _, [] => true
  | p, e :: es =>
    match RisuOp.ofCode e.code with
    | some .setmemblock =>
      memblockReady (A.getArchMemory (A.getReginfoParamreg (A.reginfoInit e.uc))) es
    | some .comparemem => p.isSome && memblockReady p es
    | _ => memblockReady p es

/-! ### What an accepted record changes -/

/-- `is_setup` after an op was completed. -/
def setupAfter (op : RisuOp) (isSetup : Bool) : Bool :=
  match op with
  | .setupbegin => true
  | .setupend => false
  | _ => isSetup

/-- The mark after an op was completed. -/
def markAfter (op : RisuOp) (m : List (RisuOp × Bool) × Bool) : List (RisuOp × Bool) × Bool :=
  (m.1 ++ [(op, setupAfter op m.2)], setupAfter op m.2)

theorem masterFinish_ok {op : RisuOp} (hop : op ≠ .testend) (s : State A) (e : Event A) :
    (masterFinish op s e).1 = .ok ∧ (masterFinish op s e).2.2.mark = markAfter op s.mark := by
  cases op <;> first | exact absurd rfl hop | exact ⟨rfl, rfl⟩

theorem masterFinish_memblock {s : State A} {e : Event A} {op : RisuOp} {es : List (Event A)}
    (hop : RisuOp.ofCode e.code = some op) (hri : s.riMaster = A.reginfoInit e.uc)
    (h : memblockReady s.memblock (e :: es) = true) :
    memblockReady (masterFinish op (masterRecord op s e) e).2.2.memblock es = true ∧
      (recordOf op s e).payload.isMissing = false := by
  cases op <;>
    simp [memblockReady, hop, masterFinish, masterRecord, State.complete, recordOf,
      RisuOp.isRegister, Payload.isMissing, hri] at h ⊢ <;> try exact h
  obtain ⟨hsome, h⟩ := h
  refine ⟨h, ?_⟩
  obtain ⟨p, hp⟩ := Option.isSome_iff_exists.mp hsome
  simp [hp]

/-- What a register verdict can be. -/
theorem registerVerdict_cases (op : RisuOp) (s : State A) (e : Event A) :
    (registerVerdict op s e).2.2 = s ∧
      ((registerVerdict op s e).1 = .ok ∧ s.header.risuOp = op.code ∧ op ≠ .testend ∨
        ((registerVerdict op s e).1 = .mismatchOp ∨ (registerVerdict op s e).1 = .resEnd) ∧
          (registerVerdict op s e).2.1 = e.uc) := by
  rw [registerVerdict]
  split_ifs with h₁ h₂ h₃
  · exact ⟨rfl, .inr ⟨.inl rfl, rfl⟩⟩
  · exact ⟨rfl, .inr ⟨.inr rfl, rfl⟩⟩
  · exact ⟨rfl, .inl ⟨rfl, (not_not.mp h₁).symm, h₂⟩⟩
  · exact ⟨rfl, .inl ⟨rfl, (not_not.mp h₁).symm, h₂⟩⟩

/-- The apprentice's state after a record for `op` was accepted. -/
def State.accept (s : State A) (op : RisuOp) : State A :=
  match op with
  | .setmemblock =>
    let p := A.getReginfoParamreg s.riApprentice
    { s with archMemblock := p, memblock := A.getArchMemory p }
  | .setupbegin | .setupend => { s with isSetup := setupAfter op s.isSetup }
  | _ => s

/-- Everything the comparison can come to: the record is one for the same op and is accepted, or it
is refused with a code of its own and the context is left alone; in both cases `reginfo_is_eq` may
have written to the apprentice's registers. -/
theorem compareRecord_cases {op : RisuOp} {s : State A} {e : Event A}
    {v : RisuResult × A.Ucontext × State A} (h : compareRecord op s e = .ok v) :
    ∃ ri, (v.1 = .ok ∧ s.header.risuOp = op.code ∧ op ≠ .testend ∧
        v.2.2 = { s.accept op with riApprentice := ri }) ∨
      (v.1 ≠ .ok ∧ v.1 ≠ .sigbus ∧ v.2.1 = e.uc ∧ v.2.2 = { s with riApprentice := ri }) := by
  -- the three register ops share one branch
  have hregs : op.isRegister = true → ∀ ri, v = registerVerdict op { s with riApprentice := ri } e →
      (v.1 = .ok ∧ s.header.risuOp = op.code ∧ op ≠ .testend ∧
        v.2.2 = { s.accept op with riApprentice := ri }) ∨
      (v.1 ≠ .ok ∧ v.1 ≠ .sigbus ∧ v.2.1 = e.uc ∧ v.2.2 = { s with riApprentice := ri }) := by
    intro hreg ri hv
    obtain ⟨hstate, hres⟩ := registerVerdict_cases op { s with riApprentice := ri } e
    rw [hv, hstate]
    rcases hres with ⟨hok, hcode, hne⟩ | ⟨hres, huc⟩
    · refine .inl ⟨hok, hcode, hne, ?_⟩
      cases op <;> first | rfl | cases hreg
    · exact .inr ⟨by rcases hres with h | h <;> simp [h], by rcases hres with h | h <;> simp [h],
        huc, rfl⟩
  have hrefused : ∀ (r : RisuResult) (ri : A.Reginfo), v = (r, e.uc, { s with riApprentice := ri }) →
      r ≠ .ok → r ≠ .sigbus →
      v.1 ≠ .ok ∧ v.1 ≠ .sigbus ∧ v.2.1 = e.uc ∧ v.2.2 = { s with riApprentice := ri } := by
    intro r ri hv hok hbus
    rw [hv]
    exact ⟨hok, hbus, rfl, rfl⟩
  cases op with
  | compare | testend | sigill =>
    simp only [compareRecord] at h
    split_ifs at h with h₁ h₂
    · exact ⟨s.riApprentice, .inr (hrefused .mismatchOp _ (by simpa using h.symm) (by decide)
        (by decide))⟩
    · exact ⟨s.riApprentice, hregs rfl _ (by simpa using h.symm)⟩
    · split at h
      · cases h
      · rename_i ri _
        exact ⟨ri, .inr (hrefused .mismatchReg _ (by simpa using h.symm) (by decide) (by decide))⟩
      · rename_i ri _
        exact ⟨ri, hregs rfl _ (by simpa using h.symm)⟩
  | setmemblock | getmemblock | setupbegin | setupend =>
    refine ⟨s.riApprentice, ?_⟩
    simp only [compareRecord] at h
    split_ifs at h with h₁
    · exact .inr (hrefused .mismatchOp _ (by simpa using h.symm) (by decide) (by decide))
    · cases h
      exact .inl ⟨rfl, (not_not.mp h₁).symm, by decide, rfl⟩
  | comparemem =>
    refine ⟨s.riApprentice, ?_⟩
    simp only [compareRecord] at h
    split_ifs at h with h₁
    · exact .inr (hrefused .mismatchOp _ (by simpa using h.symm) (by decide) (by decide))
    · split at h
      · cases h
      · split_ifs at h
        · exact .inr (hrefused .mismatchMem _ (by simpa using h.symm) (by decide) (by decide))
        · cases h
          exact .inl ⟨rfl, (not_not.mp h₁).symm, by decide, rfl⟩

/-- What the comparison of a record comes to, if the apprentice survives it. -/
theorem verdict_inv {f : Event A} {u : State A} {v : RisuResult × A.Ucontext × State A}
    (h : verdict f u = .ok v) :
    ∃ op w, RisuOp.ofCode f.code = some op ∧ compareRecord op u f = .ok w ∧
      v = noteCompleted op w := by
  rw [verdict] at h
  cases hop : RisuOp.ofCode f.code with
  | none => simp [hop] at h
  | some op =>
    cases hc : compareRecord op u f with
    | error d => simp [hop, hc, Except.map] at h
    | ok w =>
      refine ⟨op, w, rfl, hc, ?_⟩
      simpa [hop, hc, Except.map] using h.symm

theorem verdict_signalCount {f : Event A} {u : State A} {v : RisuResult × A.Ucontext × State A}
    (h : verdict f u = .ok v) : v.2.2.signalCount = u.signalCount := by
  obtain ⟨op, w, -, hc, rfl⟩ := verdict_inv h
  have hw : w.2.2.signalCount = u.signalCount := by
    obtain ⟨ri, hcase⟩ := compareRecord_cases hc
    rcases hcase with ⟨-, -, -, hstate⟩ | ⟨-, -, -, hstate⟩ <;> rw [hstate]
    cases op <;> rfl
  rw [noteCompleted]
  split_ifs <;> exact hw

/-- An accepted record is one for the apprentice's own op, and is completed; a refused one leaves
the mark as it was. -/
theorem verdict_cases {f : Event A} {u : State A} {v : RisuResult × A.Ucontext × State A}
    (h : verdict f u = .ok v) :
    (v.1 = .ok ∧ ∃ op, RisuOp.ofCode f.code = some op ∧ u.header.risuOp = op.code ∧
        op ≠ .testend ∧ v.2.2.mark = markAfter op u.mark) ∨
      (v.1 ≠ .ok ∧ v.1 ≠ .sigbus ∧ v.2.2.mark = u.mark) := by
  obtain ⟨op, w, hop, hc, rfl⟩ := verdict_inv h
  obtain ⟨ri, hcase⟩ := compareRecord_cases hc
  rcases hcase with ⟨hok, hcode, hne, hstate⟩ | ⟨hok, hbus, -, hstate⟩
  · simp only [noteCompleted, if_pos hok, hstate]
    refine .inl ⟨hok, op, hop, hcode, hne, ?_⟩
    cases op <;> rfl
  · simp only [noteCompleted, if_neg hok, hstate]
    exact .inr ⟨hok, hbus, rfl⟩

end Risu
