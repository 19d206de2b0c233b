import Risu.Settle
import Risu.Ppc64.Port

/-!
# Pairing the events of the two sides

What a session decides is a matter of the two event sequences alone.  This module says it in their
terms:

* `kept` — the events a side does not pass over, each with what the side knows when it gets there,
  up to the one at which the side stops by itself;
* `Passes` — a master's event and an apprentice's event agree; `refusal` and `death` say how the
  apprentice stops at a pair that does not;
* `Course` — the pairs agree one after the other until the session ends in one of eight ways.

`records_eq` and `follow_course` show that the two programs do follow this pairing.
-/

namespace Risu

open Lib Lib.Process

variable {A : Arch}

/-! ### The events of one side -/

/-- An event a side does not pass over, with `is_setup`, `memblock` and `signal_count` there. -/
structure Site (A : Arch) where
  event : Event A
  isSetup : Bool
  memblock : Option A.Ptr
  signalCount : ℕ

namespace Site

variable (c : Site A)

def op : Option RisuOp := RisuOp.ofCode c.event.code

def ri : A.Reginfo := A.reginfoInit c.event.uc

/-- The memory block a `COMPAREMEM` is about. -/
def block : Option (List Byte) := c.memblock.map c.event.block

def isRegister : Bool := c.op.any RisuOp.isRegister

/-- The record the master sends here. -/
def record : Option (Record A) := c.op.map fun op =>
  { op
    pc := A.getPc c.event.uc c.ri
    payload :=
      match op with
      | .testend | .compare | .sigill => .regs c.ri
      | .comparemem => c.block.elim .missing .mem
      | .setmemblock | .getmemblock | .setupbegin | .setupend => .empty }

end Site

/-- `memblock` after an op was completed at the event `e`. -/
def memblockAfter (op : RisuOp) (e : Event A) (memblock : Option A.Ptr) : Option A.Ptr :=
  match op with
  | .setmemblock => A.getArchMemory (A.getReginfoParamreg (A.reginfoInit e.uc))
  | _ => memblock

/-- The events of a side, without the illegal instructions passed over during setup, up to the first
`TESTEND`, bus error or op that is none. -/
def kept : List (Event A) → Bool → Option A.Ptr → ℕ → List (Site A)
  | [], _, _, _ => []
  | e :: es, isSetup, memblock, n =>
    match e.sig with
    | .sigbus => []
    | .sigill =>
      if e.Skipped isSetup then kept es isSetup memblock (n + 1)
      else
        ⟨e, isSetup, memblock, n + 1⟩ ::
          match RisuOp.ofCode e.code with
          | none | some .testend => []
          | some op => kept es (setupAfter op isSetup) (memblockAfter op e memblock) (n + 1)

/-- The events of a side from a state on. -/
abbrev State.kept (s : State A) (es : List (Event A)) : List (Site A) :=
  Risu.kept es s.isSetup s.memblock s.signalCount

/-- One kept event of a side, and what is kept after it. -/
theorem kept_cons {e : Event A} (es : List (Event A)) (isSetup : Bool) (p : Option A.Ptr) (n : ℕ)
    {op : RisuOp} (hsig : e.sig = .sigill) (hop : RisuOp.ofCode e.code = some op) :
    kept (e :: es) isSetup p n =
      if e.Skipped isSetup then kept es isSetup p (n + 1)
      else ⟨e, isSetup, p, n + 1⟩ ::
        if op = .testend then []
        else kept es (setupAfter op isSetup) (memblockAfter op e p) (n + 1) := by
  rw [kept]
  simp only [hsig, hop]
  cases op <;> simp

/-- An illegal instruction that is passed over asks for no other op. -/
theorem Event.Skipped.op {e : Event A} {isSetup : Bool} (h : e.Skipped isSetup) :
    RisuOp.ofCode e.code = some .sigill := by
  rw [h.1]
  rfl

/-! ### Images that ask for given ops -/

/-- The kept events of an image that asks for an op at each event. -/
theorem kept_ops_cons {req : RisuOp → Event A} (hsig : ∀ op, (req op).sig = .sigill)
    (hop : ∀ op, RisuOp.ofCode (req op).code = some op) (op : RisuOp) (es : List (Event A)) (isSetup : Bool)
    (p : Option A.Ptr) (n : ℕ) :
    kept (req op :: es) isSetup p n =
      if op = .sigill ∧ isSetup = true then kept es isSetup p (n + 1)
      else ⟨req op, isSetup, p, n + 1⟩ ::
        if op = .testend then []
        else kept es (setupAfter op isSetup) (memblockAfter op (req op) p) (n + 1) := by
  have hcode : (req op).code = RisuOp.sigill.code ↔ op = .sigill := by
    rw [← RisuOp.ofCode_eq_some, hop, Option.some.injEq]
  have hskip : (req op).Skipped isSetup ↔ op = .sigill ∧ isSetup = true := and_congr_left' hcode
  rw [kept_cons es isSetup p n (hsig op) (hop op)]
  simp only [hskip]

theorem kept_request_cons (op : RisuOp) (es : List (Event (Ppc64.port Ppc64.native32))) (isSetup : Bool)
    (p : Option (Ppc64.port Ppc64.native32).Ptr) (n : ℕ) :
    kept (Ppc64.request op :: es) isSetup p n =
      if op = .sigill ∧ isSetup = true then kept es isSetup p (n + 1)
      else ⟨Ppc64.request op, isSetup, p, n + 1⟩ ::
        if op = .testend then []
        else kept es (setupAfter op isSetup) (memblockAfter op (Ppc64.request op) p) (n + 1) :=
  kept_ops_cons (fun _ => rfl) Ppc64.request_op op es isSetup p n

/-- An image that asks for one op and nothing else keeps that event. -/
theorem kept_request (op : RisuOp) :
    kept [Ppc64.request op] false none 0 = [⟨Ppc64.request op, false, none, 1⟩] := by
  rw [kept_request_cons, if_neg (by simp)]
  split_ifs <;> rfl

/-- The image asks for a memory block at its own beginning. -/
def blockPtr : (Ppc64.port Ppc64.native32).Ptr := 0x1000#32

theorem memblockAfter_request (op op' : RisuOp) (p : Option (Ppc64.port Ppc64.native32).Ptr) :
    memblockAfter op (Ppc64.request op') p = if op = .setmemblock then some blockPtr else p := by
  cases op <;> rfl

/-- A test with illegal instructions in a window of setup, and a memory block. -/
def blockTest (skipped : ℕ) : List (Event (Ppc64.port Ppc64.native32)) :=
  Ppc64.request .setmemblock :: Ppc64.request .setupbegin ::
    (List.replicate skipped (Ppc64.request .sigill) ++ [Ppc64.request .setupend,
      Ppc64.request .comparemem, Ppc64.request .compare, Ppc64.request .testend])

theorem kept_skipped (k : ℕ) (es : List (Event (Ppc64.port Ppc64.native32)))
    (p : Option (Ppc64.port Ppc64.native32).Ptr) (n : ℕ) :
    kept (List.replicate k (Ppc64.request .sigill) ++ es) true p n = kept es true p (n + k) := by
  induction k generalizing n with
  | zero => rfl
  | succ k ih =>
    rw [List.replicate_succ, List.cons_append, kept_request_cons, if_pos ⟨rfl, rfl⟩, ih]
    congr 1
    omega

theorem kept_blockTest (k : ℕ) : kept (blockTest k) false none 0 =
    [⟨Ppc64.request .setmemblock, false, none, 1⟩,
      ⟨Ppc64.request .setupbegin, false, some blockPtr, 2⟩,
      ⟨Ppc64.request .setupend, true, some blockPtr, 2 + k + 1⟩,
      ⟨Ppc64.request .comparemem, false, some blockPtr, 2 + k + 2⟩,
      ⟨Ppc64.request .compare, false, some blockPtr, 2 + k + 3⟩,
      ⟨Ppc64.request .testend, false, some blockPtr, 2 + k + 4⟩] := by
  rw [blockTest]
  simp only [kept_request_cons, kept_skipped, memblockAfter_request, setupAfter]
  simp

theorem memblockReady_request (op : RisuOp) (es : List (Event (Ppc64.port Ppc64.native32)))
    (p : Option (Ppc64.port Ppc64.native32).Ptr) :
    memblockReady p (Ppc64.request op :: es) =
      if op = .comparemem then p.isSome && memblockReady p es
      else memblockReady (memblockAfter op (Ppc64.request op) p) es := by
  rw [memblockReady, Ppc64.request_op]
  cases op <;> rfl

theorem memblockReady_blockTest (k : ℕ) : memblockReady none (blockTest k) = true := by
  have hskip (es : List (Event (Ppc64.port Ppc64.native32))) (p) :
      memblockReady p (List.replicate k (Ppc64.request .sigill) ++ es) = memblockReady p es := by
    induction k with
    | zero => rfl
    | succ k ih =>
      rw [List.replicate_succ, List.cons_append, memblockReady_request]
      exact ih
  rw [blockTest]
  simp only [memblockReady_request, hskip, memblockAfter_request]
  simp [memblockReady]

/-- A `COMPAREMEM` of the master before any `SETMEMBLOCK`: a block is announced and not sent. -/
def Site.Missing (m : Site A) : Prop := m.op = some .comparemem ∧ m.memblock = none

instance (m : Site A) : Decidable m.Missing := inferInstanceAs (Decidable (_ ∧ _))

/-- The payload of the master's record is written in another length than announced. -/
def Site.distorts (m : Site A) : Bool := m.op.any A.distorts

/-- The number of payload bytes the master writes. -/
def Site.writtenSize (m : Site A) : ℕ := m.op.elim 0 A.writtenSize

theorem Site.distorts_of_native (hA : A.swapsHeader = false) (m : Site A) : m.distorts = false := by
  rw [Site.distorts]
  cases m.op with
  | none => rfl
  | some op => exact Arch.distorts_of_native hA op

/-- No block is missing where every `COMPAREMEM` finds `memblock` set. -/
theorem kept_ready (es : List (Event A)) (isSetup : Bool) (p : Option A.Ptr) (n : ℕ)
    (h : memblockReady p es = true) : ∀ c ∈ kept es isSetup p n, ¬ c.Missing := by
  induction es generalizing isSetup p n with
  | nil => simp [kept]
  | cons e es ih =>
    cases hsig : e.sig with
    | sigbus => simp [kept, hsig]
    | sigill =>
      cases hop : RisuOp.ofCode e.code with
      | none =>
        have hskip : ¬ e.Skipped isSetup := fun h => by simpa [hop] using h.op
        simp [kept, hsig, hop, hskip, Site.Missing, Site.op]
      | some op =>
        have hrest : memblockReady (memblockAfter op e p) es = true ∧
            (op = .comparemem → p.isSome = true) := by
          cases op <;> simpa [memblockReady, hop, memblockAfter, and_comm] using h
        rw [kept_cons es isSetup p n hsig hop]
        split_ifs with hskip htest
        · obtain rfl : op = .sigill := by simpa [hop] using hskip.op
          exact ih _ _ _ hrest.1
        · simp [Site.Missing, Site.op, hop, htest]
        · intro c hc
          rcases List.mem_cons.mp hc with rfl | hc
          · intro hmissing
            obtain ⟨hmem, hp⟩ := hmissing
            have := hrest.2 (by simpa [Site.op, hop] using hmem)
            simp only at hp
            simp [hp] at this
          · exact ih _ _ _ hrest.1 c hc

/-! ### The records the master sends -/

/-- The events for which the master sends a record. -/
def sent (es : List (Event A)) : List (Site A) :=
  (kept es false none 0).filter fun c => c.op.isSome

theorem Site.record_sound {c : Site A} {r : Record A} (hr : c.record = some r) : r.Sound := by
  rw [Site.record] at hr
  obtain ⟨op, -, rfl⟩ := Option.map_eq_some_iff.mp hr
  cases op with
  | comparemem => cases hp : c.memblock <;> simp [Record.Sound, Site.block, hp]
  | sigill | compare | testend | setmemblock | getmemblock | setupbegin | setupend =>
    simp [Record.Sound, RisuOp.isRegister]

theorem Site.missing_iff {m : Site A} {r : Record A} (hr : m.record = some r) :
    r.payload.isMissing = true ↔ m.Missing := by
  rw [Site.record] at hr
  obtain ⟨op, hop, rfl⟩ := Option.map_eq_some_iff.mp hr
  rw [Site.Missing]
  cases op with
  | comparemem => cases hp : m.memblock <;> simp [Payload.isMissing, hop, Site.block, hp]
  | sigill | compare | testend | setmemblock | getmemblock | setupbegin | setupend =>
    simp [Payload.isMissing, hop]

theorem Site.distorts_eq {m : Site A} {r : Record A} (hr : m.record = some r) :
    m.distorts = A.distorts r.op ∧ m.writtenSize = A.writtenSize r.op := by
  rw [Site.record] at hr
  obtain ⟨op, hop, rfl⟩ := Option.map_eq_some_iff.mp hr
  simp [Site.distorts, Site.writtenSize, hop]

/-- What the master knows after an op it goes on from. -/
theorem masterFinish_known {op : RisuOp} (hop : op ≠ .testend) (s : State A) (e : Event A)
    (hri : s.riMaster = A.reginfoInit e.uc) :
    (masterFinish op (masterRecord op s e) e).2.2.isSetup = setupAfter op s.isSetup ∧
    (masterFinish op (masterRecord op s e) e).2.2.memblock = memblockAfter op e s.memblock ∧
    (masterFinish op (masterRecord op s e) e).2.2.signalCount = s.signalCount := by
  cases op <;> first
    | exact absurd rfl hop
    | simp [masterFinish, masterRecord, State.complete, setupAfter, memblockAfter,
        RisuOp.isRegister, hri]

/-- The master's kept events, along its own loop. -/
theorem kept_master {e : Event A} (es : List (Event A)) (s : State A) (hsig : e.sig = .sigill) :
    s.kept (e :: es) =
      if e.Skipped s.isSetup then (resume e (.ok, e.uc, s.enterMaster e)).2.kept es
      else ⟨e, s.isSetup, s.memblock, s.signalCount + 1⟩ ::
        match RisuOp.ofCode e.code with
        | none => []
        | some op =>
          let r := masterFinish op (masterRecord op (s.enterMaster e) e) e
          if r.1 = .ok then (resume e r).2.kept es else [] := by
  cases hop : RisuOp.ofCode e.code with
  | none =>
    have hskip : ¬ e.Skipped s.isSetup := fun h => by simpa [hop] using h.op
    simp [State.kept, kept, hsig, hskip, hop]
  | some op =>
    rw [State.kept, kept_cons es _ _ _ hsig hop]
    by_cases hskip : e.Skipped s.isSetup
    · simp [hskip, State.kept, State.enterMaster]
    · rw [if_neg hskip, if_neg hskip]
      by_cases hend : op = .testend
      · subst hend
        rfl
      · obtain ⟨hset, hmem, hcount⟩ := masterFinish_known hend (s.enterMaster e) e
          (by simp [State.enterMaster])
        simp only [if_neg hend]
        rw [if_pos (masterFinish_ok hend _ e).1, State.kept, resume_isSetup, resume_memblock,
          resume_signalCount, hset, hmem, hcount]
        simp [State.enterMaster]

/-- The master sends the records of its kept events. -/
theorem records_eq (es : List (Event A)) (s : State A) :
    records es s = (s.kept es).filterMap Site.record := by
  induction es generalizing s with
  | nil => rfl
  | cons e es ih =>
    rw [records]
    cases hsig : e.sig with
    | sigbus => simp [State.kept, kept, hsig]
    | sigill =>
      rw [kept_master es s hsig]
      simp only
      split_ifs with hskip
      · exact ih _
      · rw [List.filterMap_cons]
        cases hop : RisuOp.ofCode e.code with
        | none => simp [Site.record, Site.op, hop]
        | some op =>
          have hrec : Site.record ⟨e, s.isSetup, s.memblock, s.signalCount + 1⟩ =
              some (recordOf op (s.enterMaster e) e) := by
            simp only [Site.record, Site.op, hop, Option.map_some, recordOf, Site.ri, Site.block,
              State.enterMaster, countSigill_riMaster, countSigill_memblock]
            cases op <;> simp
            cases s.memblock <;> rfl
          simp only [hrec, ih]
          split_ifs <;> rfl

theorem forall₂_record (L : List (Site A)) :
    List.Forall₂ (fun m r => m.record = some r) (L.filter fun c => c.op.isSome)
      (L.filterMap Site.record) := by
  induction L with
  | nil => exact .nil
  | cons c L ih =>
    cases hop : c.op with
    | none => simpa [Site.record, hop] using ih
    | some op =>
      obtain ⟨r, hr⟩ : ∃ r, c.record = some r := by simp [Site.record, hop]
      rw [List.filter_cons_of_pos (by simp [hop]), List.filterMap_cons_some hr]
      exact .cons hr ih

/-! ### Pairs of events -/

/-- `reginfo_is_eq` on the registers of a pair; `none` if a division in it traps. -/
def compared (m a : Site A) : Option Bool := (A.reginfoIsEq a.signalCount m.ri a.ri).map Prod.fst

/-- The registers of the pair are compared: both ops carry them, and this is not setup. -/
def Compares (m a : Site A) : Prop :=
  m.isRegister = true ∧ a.isRegister = true ∧ a.isSetup = false

/-- The pair agrees: in the op, outside setup in the registers, and in the memory block. -/
def Passes (m a : Site A) : Prop :=
  m.op = a.op ∧
  (a.isRegister = true → a.isSetup = false → compared m a = some true) ∧
  (a.op = some .comparemem → a.block.isSome = true ∧ m.block = a.block)

instance (m a : Site A) : Decidable (Compares m a) := inferInstanceAs (Decidable (_ ∧ _ ∧ _))

instance (m a : Site A) : Decidable (Passes m a) := inferInstanceAs (Decidable (_ ∧ _ ∧ _))

/-- The code for a pair that does not agree. -/
def refusal (m a : Site A) : RisuResult :=
  if Compares m a ∧ compared m a = some false then .mismatchReg
  else if m.op ≠ a.op then .mismatchOp
  else .mismatchMem

/-- A pair over which the apprentice dies: at an op that is none, in a division, or over a block that
was never set. -/
def death (m a : Site A) : Option Death :=
  if a.op = none then some .abort
  else if Compares m a ∧ compared m a = none then some .fpe
  else if m.op = some .comparemem ∧ a.op = some .comparemem ∧ a.memblock = none then some .segv
  else none

/-- What the comparison of a pair returns. -/
def outcome (m a : Site A) : Except Death RisuResult :=
  match death m a with
  | some d => .error d
  | none => .ok (if Passes m a then if a.op = some .testend then .resEnd else .ok else refusal m a)

/-- The apprentice survives a pair that agrees. -/
theorem Passes.death_eq {m a : Site A} (h : Passes m a) (hm : m.op.isSome = true) :
    death m a = none := by
  rw [death]
  rw [if_neg, if_neg, if_neg]
  · intro hsegv
    obtain ⟨-, hop, hp⟩ := hsegv
    simpa [Site.block, hp] using (h.2.2 hop).1
  · intro hfpe
    obtain ⟨⟨-, ha, hs⟩, htrap⟩ := hfpe
    simpa [htrap] using h.2.1 ha hs
  · intro hop
    rw [h.1, hop] at hm
    cases hm

/-- The code of a refusal is one of a mismatch. -/
theorem refusal_ne (m a : Site A) :
    refusal m a ≠ .ok ∧ refusal m a ≠ .resEnd ∧ refusal m a ≠ .sigbus := by
  rw [refusal]
  split_ifs <;> exact ⟨nofun, nofun, nofun⟩

theorem refusal_ne_badIo (m a : Site A) : refusal m a ≠ .badIo := by
  rw [refusal]
  split_ifs <;> exact nofun

theorem outcome_ok_iff {m a : Site A} (hm : m.op.isSome = true) :
    outcome m a = .ok .ok ↔ a.op ≠ some .testend ∧ Passes m a := by
  rw [outcome]
  constructor
  · intro h
    cases hd : death m a with
    | some d => simp [hd] at h
    | none =>
      by_cases hpass : Passes m a
      · refine ⟨fun htest => ?_, hpass⟩
        simp [hd, hpass, htest] at h
      · simp [hd, hpass, (refusal_ne m a).1] at h
  · intro hok
    obtain ⟨htest, hpass⟩ := hok
    simp [hpass.death_eq hm, hpass, htest]

/-- The apprentice stands at `a` with the record of `m` stored. -/
structure Faces (u : State A) (m a : Site A) : Prop where
  header : m.op.map RisuOp.code = some u.header.risuOp
  regs : m.isRegister = true → u.riMaster = m.ri
  mem : m.op = some .comparemem → m.block = some u.otherMemblock.1
  ri : u.riApprentice = a.ri
  isSetup : u.isSetup = a.isSetup
  memblock : u.memblock = a.memblock
  signalCount : u.signalCount = a.signalCount

theorem faces_storeRecord {m : Site A} {r : Record A} (hr : m.record = some r)
    (hm : r.payload.isMissing = false) {f : Event A} {u : State A}
    (hri : u.riApprentice = A.reginfoInit f.uc) :
    Faces (storeRecord u r) m ⟨f, u.isSetup, u.memblock, u.signalCount⟩ := by
  rw [Site.record] at hr
  obtain ⟨op, hop, rfl⟩ := Option.map_eq_some_iff.mp hr
  cases op with
  | comparemem =>
    cases hb : m.block with
    | none => simp [hb, Payload.isMissing] at hm
    | some block =>
      have hlen : block.length = memblockLen := by
        obtain ⟨p, -, rfl⟩ := Option.map_eq_some_iff.mp hb
        exact Event.block_length _ _
      refine ⟨?_, ?_, ?_, ?_, ?_, ?_, ?_⟩ <;>
        simp [storeRecord, hop, hb, hri, Site.isRegister, RisuOp.isRegister, Site.ri,
          Record.header, Block.store_val _ hlen]
  | sigill | compare | testend | setmemblock | getmemblock | setupbegin | setupend =>
    refine ⟨?_, ?_, ?_, ?_, ?_, ?_, ?_⟩ <;>
      simp [storeRecord, hop, hri, Site.isRegister, RisuOp.isRegister, Site.ri, Record.header]

theorem noteCompleted_fst (op : RisuOp) (r : RisuResult × A.Ucontext × State A) :
    (noteCompleted op r).1 = r.1 := by
  rw [noteCompleted]
  split_ifs <;> rfl

/-- The codes the register cases let through are those of the register ops. -/
theorem RisuOp.isRegister_code (op : RisuOp) :
    (op.code ≠ RisuOp.compare.code ∧ op.code ≠ RisuOp.testend.code ∧
      op.code ≠ RisuOp.sigill.code) ↔ op.isRegister = false := by
  cases op <;> decide

theorem RisuOp.code_eq_iff {op op' : RisuOp} : op.code = op'.code ↔ op = op' :=
  ⟨RisuOp.code_injective, congrArg _⟩

/-- What the register cases return once the registers are out of the way. -/
def opVerdict (opm op : RisuOp) : RisuResult :=
  if opm ≠ op then .mismatchOp else if op = .testend then .resEnd else .ok

theorem registerVerdict_fst (op : RisuOp) {opm : RisuOp} {s : State A} (e : Event A)
    (h : s.header.risuOp = opm.code) : (registerVerdict op s e).1 = opVerdict opm op := by
  have hsame : op.code ≠ opm.code ↔ opm ≠ op := by
    rw [ne_eq, RisuOp.code_eq_iff, eq_comm]
  rw [registerVerdict, opVerdict]
  simp only [h, hsame]
  split_ifs <;> rfl

/-- The register cases, by the op of the record. -/
theorem compareRecord_register {op opm : RisuOp} {s : State A} (e : Event A)
    (hop : op.isRegister = true) (h : s.header.risuOp = opm.code) :
    (compareRecord op s e).map Prod.fst =
      if opm.isRegister = false then .ok .mismatchOp
      else if s.isSetup = true then .ok (opVerdict opm op)
      else
        match (A.reginfoIsEq s.signalCount s.riMaster s.riApprentice).map Prod.fst with
        | none => .error .fpe
        | some false => .ok .mismatchReg
        | some true => .ok (opVerdict opm op) := by
  cases op with
  | setmemblock | getmemblock | comparemem | setupbegin | setupend => cases hop
  | sigill | compare | testend =>
    simp only [compareRecord, h, RisuOp.isRegister_code]
    split_ifs
    · rfl
    · simp only [Except.map, registerVerdict_fst _ e h]
    · cases A.reginfoIsEq s.signalCount s.riMaster s.riApprentice with
      | none => rfl
      | some res =>
        obtain ⟨eq, ri⟩ := res
        cases eq with
        | false => rfl
        | true =>
          have hri : ({ s with riApprentice := ri } : State A).header.risuOp = opm.code := h
          simp only [Except.map, Option.map_some, registerVerdict_fst _ e hri]

/-- The other cases, by the op of the record. -/
theorem compareRecord_other {op opm : RisuOp} {s : State A} (e : Event A)
    (hop : op.isRegister = false) (h : s.header.risuOp = opm.code) :
    (compareRecord op s e).map Prod.fst =
      if opm ≠ op then .ok .mismatchOp
      else if op = .comparemem then
        match s.memblock with
        | none => .error .segv
        | some p => .ok (if e.block p ≠ s.otherMemblock.1 then .mismatchMem else .ok)
      else .ok .ok := by
  have hsame : op.code ≠ opm.code ↔ opm ≠ op := by
    rw [ne_eq, RisuOp.code_eq_iff, eq_comm]
  cases op with
  | sigill | compare | testend => cases hop
  | comparemem =>
    simp only [compareRecord, h, hsame, if_true]
    split_ifs with hne
    · rfl
    · cases s.memblock with
      | none => rfl
      | some p => simp only; split_ifs <;> rfl
  | setmemblock | getmemblock | setupbegin | setupend =>
    simp only [compareRecord, h, hsame, reduceCtorEq, if_false]
    split_ifs with hne <;> rfl

section outcome

variable {m a : Site A} {op opm : RisuOp}

/-- A pair whose registers are not compared, or compared and equal, is decided by the ops. -/
theorem outcome_ops (hop : a.op = some op) (hopm : m.op = some opm) (hreg : op.isRegister = true)
    (hcmp : Compares m a → compared m a = some true)
    (hm : opm.isRegister = true ∨ opm ≠ op) :
    outcome m a = .ok (opVerdict opm op) := by
  have hne : op ≠ .comparemem := by
    intro heq
    subst heq
    cases hreg
  have hdeath : death m a = none := by
    rw [death, if_neg (by simp [hop]), if_neg, if_neg (by simp [hop, hne])]
    intro hfpe
    obtain ⟨h, htrap⟩ := hfpe
    simp [hcmp h] at htrap
  have hrefusal : m.op ≠ a.op → refusal m a = .mismatchOp := by
    intro hdiff
    rw [refusal, if_neg, if_pos hdiff]
    intro hreg
    obtain ⟨h, hfail⟩ := hreg
    simp [hcmp h] at hfail
  simp only [outcome, hdeath, opVerdict]
  by_cases hsame : opm = op
  · have hpass : Passes m a := by
      refine ⟨by rw [hop, hopm, hsame], fun ha hs => hcmp ⟨?_, ha, hs⟩, by simp [hop, hne]⟩
      simp [Site.isRegister, hopm, hm.resolve_right (not_not.mpr hsame)]
    rw [if_pos hpass, if_neg (not_not.mpr hsame), hop]
    simp
  · have hdiff : m.op ≠ a.op := by simp [hop, hopm, hsame]
    rw [if_neg fun h => hdiff h.1, hrefusal hdiff, if_pos hsame]

/-- The comparison of a register op. -/
theorem outcome_register (hop : a.op = some op) (hopm : m.op = some opm)
    (hreg : op.isRegister = true) :
    outcome m a =
      if opm.isRegister = false then .ok .mismatchOp
      else if a.isSetup = true then .ok (opVerdict opm op)
      else
        match compared m a with
        | none => .error .fpe
        | some false => .ok .mismatchReg
        | some true => .ok (opVerdict opm op) := by
  have hmreg : m.isRegister = opm.isRegister := by simp [Site.isRegister, hopm]
  have hareg : a.isRegister = true := by simp [Site.isRegister, hop, hreg]
  split_ifs with hm hs
  · have hne : opm ≠ op := by
      intro heq
      subst heq
      simp [hreg] at hm
    have hcmp : ¬ Compares m a := fun h => by simp [← hmreg, h.1] at hm
    rw [outcome_ops hop hopm hreg (fun h => absurd h hcmp) (.inr hne), opVerdict, if_pos hne]
  · exact outcome_ops hop hopm hreg (fun h => by simp [h.2.2] at hs) (.inl (by simpa using hm))
  · have hcmp : Compares m a := ⟨by rw [hmreg]; simpa using hm, hareg, by simpa using hs⟩
    cases hres : compared m a with
    | none =>
      rw [outcome, death, if_neg (by simp [hop]), if_pos ⟨hcmp, hres⟩]
    | some eq =>
      cases eq with
      | true => exact outcome_ops hop hopm hreg (fun _ => hres) (.inl (by simpa using hm))
      | false =>
        have hne : op ≠ .comparemem := by
          intro heq
          subst heq
          cases hreg
        have hdeath : death m a = none := by
          rw [death, if_neg (by simp [hop]), if_neg (by simp [hres]), if_neg (by simp [hop, hne])]
        have hpass : ¬ Passes m a := fun h => by simpa [hres] using h.2.1 hareg hcmp.2.2
        simp only [outcome, hdeath]
        rw [if_neg hpass, refusal, if_pos ⟨hcmp, hres⟩]

/-- The comparison of an op without registers. -/
theorem outcome_other (hop : a.op = some op) (hopm : m.op = some opm)
    (hreg : op.isRegister = false) :
    outcome m a =
      if opm ≠ op then .ok .mismatchOp
      else if op = .comparemem then
        match a.memblock with
        | none => .error .segv
        | some p => .ok (if some (a.event.block p) ≠ m.block then .mismatchMem else .ok)
      else .ok .ok := by
  have hcmp : ¬ Compares m a := fun h => by simpa [Site.isRegister, hop, hreg] using h.2.1
  have hend : op ≠ .testend := by
    intro heq
    subst heq
    cases hreg
  have hrefusal : refusal m a = if m.op ≠ a.op then .mismatchOp else .mismatchMem := by
    rw [refusal, if_neg fun h => hcmp h.1]
  have hdeath : death m a =
      if opm = .comparemem ∧ op = .comparemem ∧ a.memblock = none then some .segv else none := by
    simp [death, hop, hopm, hcmp]
  by_cases hsame : opm = op
  · subst hsame
    have heq : m.op = a.op := by rw [hop, hopm]
    rw [if_neg (not_not.mpr rfl)]
    by_cases hmem : opm = .comparemem
    · subst hmem
      cases hp : a.memblock with
      | none => simp [outcome, hdeath, hp]
      | some p =>
        have hblock : a.block = some (a.event.block p) := by simp [Site.block, hp]
        have hpass : Passes m a ↔ some (a.event.block p) = m.block := by
          rw [Passes, hblock, eq_comm (a := some (a.event.block p))]
          simp [heq, Site.isRegister, hop, RisuOp.isRegister]
        simp only [outcome, hdeath, hp, reduceCtorEq, and_false, if_false, if_true, hpass, hop,
          Option.some.injEq, hrefusal, heq, ne_eq, not_true_eq_false, ite_not]
    · have hpass : Passes m a := by
        refine ⟨heq, ?_, ?_⟩
        · simp [Site.isRegister, hop, hreg]
        · simp [hop, hmem]
      simp [outcome, hdeath, hpass, hop, hmem, hend]
  · have hdiff : m.op ≠ a.op := by simp [hop, hopm, hsame]
    have hnone : ¬ (opm = .comparemem ∧ op = .comparemem ∧ a.memblock = none) := by
      intro hmem
      obtain ⟨rfl, rfl, -⟩ := hmem
      exact hsame rfl
    have hpass : ¬ Passes m a := fun h => hdiff h.1
    simp [outcome, hdeath, hnone, hpass, hrefusal, hdiff, hsame]

/-- **The comparison of a pair.**  With the record of `m` stored, the apprentice's comparison at `a`
returns what the pair says. -/
theorem verdict_outcome {u : State A} (hu : Faces u m a) :
    (verdict a.event u).map Prod.fst = outcome m a := by
  obtain ⟨opm, hopm, hhead⟩ := Option.map_eq_some_iff.mp hu.header
  rw [verdict]
  cases hop : a.op with
  | none =>
    rw [show RisuOp.ofCode a.event.code = none from hop]
    simp [outcome, death, hop, Except.map]
  | some op =>
    have hfst : ((compareRecord op u a.event).map (noteCompleted op)).map Prod.fst =
        (compareRecord op u a.event).map Prod.fst := by
      cases compareRecord op u a.event with
      | error d => rfl
      | ok v => simp [Except.map, noteCompleted_fst]
    rw [show RisuOp.ofCode a.event.code = some op from hop]
    simp only [hfst]
    cases hreg : op.isRegister with
    | true =>
      rw [compareRecord_register a.event hreg hhead.symm, outcome_register hop hopm hreg,
        hu.isSetup, compared]
      by_cases hm : opm.isRegister = false
      · simp [hm]
      · rw [hu.signalCount, hu.ri, hu.regs (by simpa [Site.isRegister, hopm] using hm)]
    | false =>
      rw [compareRecord_other a.event hreg hhead.symm, outcome_other hop hopm hreg, hu.memblock]
      by_cases hm : opm = .comparemem
      · rw [hu.mem (by rw [hopm, hm])]
        simp
      · by_cases hsame : opm = op
        · simp [hsame ▸ hm, hsame]
        · simp [hsame]

end outcome

/-! ### The course of a session -/

/-- What the apprentice knows after a comparison. -/
theorem verdict_known {f : Event A} {u : State A} {v : RisuResult × A.Ucontext × State A}
    (h : verdict f u = .ok v) (hri : u.riApprentice = A.reginfoInit f.uc) :
    v.2.2.signalCount = u.signalCount ∧ ∀ op, RisuOp.ofCode f.code = some op → v.1 = .ok →
      v.2.2.memblock = memblockAfter op f u.memblock := by
  refine ⟨verdict_signalCount h, ?_⟩
  intro op' hop' hv
  obtain ⟨op, w, hop, hc, rfl⟩ := verdict_inv h
  obtain rfl : op = op' := by simpa [hop] using hop'
  obtain ⟨ri, hcase⟩ := compareRecord_cases hc
  rcases hcase with ⟨hok, -, -, hstate⟩ | ⟨hok, -, -, hstate⟩
  · simp only [noteCompleted, if_pos hok, hstate]
    cases op <;> simp [State.complete, State.accept, memblockAfter, hri]
  · rw [noteCompleted, if_neg hok] at hv
    exact absurd hv hok

/-- The record of `m` arrives as announced, and the pair agrees. -/
def Accepts (m a : Site A) : Prop := m.distorts = false ∧ Passes m a

/-- How a session comes to its ending `E`, from where `n` exchanges are completed and the master's
events `M` and the apprentice's events `B` are left. -/
inductive Course (E : Ending A) : ℕ → List (Site A) → List (Site A) → Prop
  /-- The next pair agrees, and both sides go on. -/
  | step {n : ℕ} {m a : Site A} {M B : List (Site A)} : Accepts m a → a.op ≠ some .testend →
      Course E (n + 1) M B → Course E n (m :: M) (a :: B)
  /-- The test ends on both sides. -/
  | accepted {n : ℕ} {m a : Site A} {M : List (Site A)} {st : State A} : Accepts m a →
      a.op = some .testend → E = .left (.jump .resEnd) st → Course E n (m :: M) [a]
  | refused {n : ℕ} {m a : Site A} {M B : List (Site A)} {st : State A} : ¬ m.Missing →
      m.distorts = false → death m a = none → ¬ Passes m a →
      E = .left (.jump (refusal m a)) st → st.completed.length = n →
      st.signalCount = a.signalCount → Course E n (m :: M) (a :: B)
  | died {n : ℕ} {m a : Site A} {M B : List (Site A)} {d : Death} {st : State A} : ¬ m.Missing →
      m.distorts = false → death m a = some d → E = .died d st → st.completed.length = n →
      st.signalCount = a.signalCount → Course E n (m :: M) (a :: B)
  /-- The next header arrives in the place of a block that is not sent. -/
  | cut {n : ℕ} {m m' a : Site A} {M B : List (Site A)} {st : State A} : m.Missing →
      E = .left (.jump .badIo) st → Course E n (m :: m' :: M) (a :: B)
  /-- Nothing arrives in the place of a block that is not sent. -/
  | starved {n : ℕ} {m a : Site A} {B : List (Site A)} : m.Missing → E = .starved →
      Course E n [m] (a :: B)
  /-- A payload arrives in another length than announced. -/
  | distorted {n : ℕ} {m a : Site A} {M B : List (Site A)} {st : State A} : ¬ m.Missing →
      m.distorts = true → m.writtenSize < 2 ^ 31 → E = .left (.jump .badIo) st →
      Course E n (m :: M) (a :: B)
  /-- A payload is too long to be written. -/
  | unwritten {n : ℕ} {m a : Site A} {M B : List (Site A)} : ¬ m.Missing → m.distorts = true →
      ¬ m.writtenSize < 2 ^ 31 → E = .starved → Course E n (m :: M) (a :: B)
  /-- One side has no further event. -/
  | exhausted {n : ℕ} {M B : List (Site A)} : M = [] ∨ B = [] → ¬ E.Answered → Course E n M B

/-- Going on from a completed pair, the apprentice's next events are those `kept` lists. -/
theorem kept_resume {f : Event A} {u : State A} {v : RisuResult × A.Ucontext × State A}
    {op : RisuOp} (hop : RisuOp.ofCode f.code = some op) (hv : verdict f u = .ok v)
    (hri : u.riApprentice = A.reginfoInit f.uc) (hok : v.1 = .ok) (fs : List (Event A)) :
    (resume f v).2.kept fs =
      kept fs (setupAfter op u.isSetup) (memblockAfter op f u.memblock) u.signalCount ∧
    (resume f v).2.completed.length = u.completed.length + 1 := by
  obtain ⟨hcount, hmem⟩ := verdict_known hv hri
  rcases verdict_cases hv with ⟨-, op', hop', -, -, hmark⟩ | ⟨hne, -⟩
  · obtain rfl : op = op' := by simpa [hop] using hop'
    have hset : (resume f v).2.isSetup = setupAfter op u.isSetup := by
      rw [resume_isSetup]
      exact congrArg Prod.snd hmark
    have hcomp : (resume f v).2.completed = u.completed ++ [(op, setupAfter op u.isSetup)] := by
      rw [resume_completed]
      exact congrArg Prod.fst hmark
    rw [State.kept, hset, resume_memblock, resume_signalCount, hcount, hmem op hop hok, hcomp]
    simp
  · exact absurd hok hne

theorem Faces.ne_missing {u : State A} {m a : Site A} (hu : Faces u m a) : ¬ m.Missing := by
  intro hmissing
  obtain ⟨hop, hp⟩ := hmissing
  simpa [Site.block, hp] using hu.mem hop

/-- The comparison of a stored record takes the course of its pair. -/
theorem judge_course {u : State A} {m a : Site A} (hu : Faces u m a) (hm : m.distorts = false)
    {k : State A → Ending A} {M B : List (Site A)} (hend : a.op = some .testend → B = [])
    (hrest : ∀ v, verdict a.event u = .ok v → v.1 = .ok →
      Course (k (resume a.event v).2) (u.completed.length + 1) M B) :
    Course (judge a.event u k) u.completed.length (m :: M) (a :: B) := by
  have hout := verdict_outcome hu
  rw [judge]
  rw [outcome] at hout
  cases hv : verdict a.event u with
  | error d =>
    rw [hv] at hout
    cases hd : death m a with
    | none => simp [hd, Except.map] at hout
    | some d' =>
      obtain rfl : d = d' := by simpa [hd, Except.map] using hout
      exact .died hu.ne_missing hm hd rfl rfl hu.signalCount
  | ok v =>
    rw [hv] at hout
    cases hd : death m a with
    | some d => simp [hd, Except.map] at hout
    | none =>
      have hres : v.1 =
          if Passes m a then if a.op = some .testend then .resEnd else .ok else refusal m a := by
        simpa [hd, Except.map] using hout
      have hmark := verdict_cases hv
      obtain ⟨hcount, -⟩ := verdict_known hv hu.ri
      by_cases hpass : Passes m a
      · rw [if_pos hpass] at hres
        by_cases htest : a.op = some .testend
        · rw [if_pos htest] at hres
          rw [hend htest]
          simp only [hres]
          exact .accepted ⟨hm, hpass⟩ htest rfl
        · rw [if_neg htest] at hres
          simp only [hres, if_true]
          exact .step ⟨hm, hpass⟩ htest (hrest v hv hres)
      · rw [if_neg hpass] at hres
        have hne : v.1 ≠ .ok := by
          rw [hres]
          exact (refusal_ne m a).1
        obtain ⟨-, -, hkeep⟩ := hmark.resolve_left fun h => hne h.1
        simp only [if_neg hne]
        rw [hres]
        refine .refused hu.ne_missing hm hd hpass rfl ?_ ?_
        · rw [resume_completed, show v.2.2.completed = u.completed from congrArg Prod.fst hkeep]
        · rw [resume_signalCount, hcount, hu.signalCount]

theorem distorted_course {m a : Site A} {r : Record A} (hr : m.record = some r)
    (hpresent : ¬ m.Missing) (hdist : m.distorts = true) (f : Event A) (u : State A) (n : ℕ)
    (M B : List (Site A)) : Course (distorted f u r.op) n (m :: M) (a :: B) := by
  rw [distorted, ← (Site.distorts_eq hr).2]
  split_ifs with hfits
  · exact .distorted hpresent hdist hfits rfl
  · exact .unwritten hpresent hdist hfits rfl

/-- The apprentice at an event, with a record stored. -/
theorem faces_enterApprentice {m : Site A} {r : Record A} (hr : m.record = some r)
    (hm : r.payload.isMissing = false) (f : Event A) (t : State A) :
    Faces (storeRecord (t.enterApprentice f) r) m ⟨f, t.isSetup, t.memblock, t.signalCount + 1⟩ ∧
      (storeRecord (t.enterApprentice f) r).completed.length = t.completed.length := by
  have hfaces := faces_storeRecord hr hm (f := f) (u := t.enterApprentice f)
    (by simp [State.enterApprentice])
  have hmark := (storeRecord_mark (t.enterApprentice f) r).trans (enterApprentice_mark t f)
  refine ⟨?_, congrArg (List.length ∘ Prod.fst) hmark⟩
  simpa [State.enterApprentice] using hfaces

/-- **The apprentice follows the pairing.** -/
theorem follow_course (fs : List (Event A)) (t : State A) {M : List (Site A)}
    {rs : List (Record A)} (hM : List.Forall₂ (fun m r => m.record = some r) M rs) :
    Course (follow fs rs t) t.completed.length M (t.kept fs) := by
  induction fs generalizing t M rs with
  | nil => exact .exhausted (.inr rfl) (by simp [follow, Ending.Answered])
  | cons f fs ih =>
    cases hsig : f.sig with
    | sigbus =>
      refine .exhausted (.inr ?_) ?_
      · simp [State.kept, kept, hsig]
      · simp [follow, hsig, Ending.Answered]
    | sigill =>
      by_cases hskip : f.Skipped t.isSetup
      · have := ih (resume f (.ok, f.uc, t.enterApprentice f)).2 hM
        simpa [follow, hsig, hskip, State.kept, kept, State.enterApprentice] using this
      · rw [State.kept, kept]
        simp only [hsig, if_neg hskip]
        cases hM with
        | nil =>
          refine .exhausted (.inl rfl) ?_
          simp [follow, hsig, hskip, Ending.Answered]
        | @cons m r M rs hr hM =>
          rw [follow_sigill hsig, if_neg hskip]
          cases hmissing : r.payload.isMissing with
          | true =>
            have hm := (Site.missing_iff hr).mp hmissing
            rw [if_pos rfl]
            cases hM with
            | nil => exact .starved hm rfl
            | cons _ _ => exact .cut hm rfl
          | false =>
            have hpresent : ¬ m.Missing := by
              rw [← Site.missing_iff hr, hmissing]
              decide
            rw [if_neg (by decide), ← (Site.distorts_eq hr).1]
            cases hdist : m.distorts with
            | true =>
              rw [if_pos rfl]
              exact distorted_course hr hpresent hdist f _ _ _ _
            | false =>
              obtain ⟨hfaces, hlen⟩ := faces_enterApprentice hr hmissing f t
              rw [if_neg (by decide), ← hlen]
              refine judge_course hfaces hdist ?_ ?_
              · intro htest
                rw [show RisuOp.ofCode f.code = _ from htest]
              · intro v hv hok
                rcases verdict_cases hv with ⟨-, op, hop, -, hne, -⟩ | ⟨h, -⟩
                · obtain ⟨hkept, hcomp⟩ := kept_resume hop hv hfaces.ri hok fs
                  have := ih (resume f v).2 hM
                  rw [hkept, hcomp, hfaces.isSetup, hfaces.memblock, hfaces.signalCount] at this
                  rw [show RisuOp.ofCode f.code = some op from hop]
                  cases op <;> first | exact absurd rfl hne | exact this
                · exact absurd hok h

end Risu
