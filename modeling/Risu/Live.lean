import Risu.Settle
import Mathlib.Logic.Relation

/-!
# The images under their handlers

In `Risu.Session` the events of a side are given.  Here they come out of the image: a platform
executes it instruction by instruction, an illegal instruction enters the handler, and the image goes
on from the context that the handler hands back.

* `Platform`, `live` — one side;
* `Meets`, `Decides` — the two images executed side by side: they meet at every op, and the first one at
  which they do not agree, or `TESTEND`, decides the test;
* `Decides.settles`, `live_decided` — the two programs end so, in every interleaving;
* `Finishes`, `Abreast` — one image, and one image next to itself.
-/

namespace Risu

open Lib Lib.Process

variable {A : Arch}

/-! ### One side -/

/-- What executes an image. -/
structure Platform (A : Arch) where
  Machine : Type
  /-- One instruction; `none` if it is illegal. -/
  step : Machine → Option Machine
  /-- The signal that an illegal instruction raises. -/
  event : Machine → Event A
  /-- The return from a signal handler. -/
  restore : Machine → A.Ucontext → Machine

/-- The image under a handler, cut off after a number of steps. -/
def live (P : Platform A) (handler : State A → Event A → Handler A (RisuResult × State A)) :
    ℕ → P.Machine → State A → Handler A (Leave × State A)
  | 0, _, s => .ret (.returned, s)
  | k + 1, m, s =>
    match P.step m with
    | some m' => live P handler k m' s
    | none => do
      let r ← handler s (P.event m)
      if r.1 = .ok then live P handler k (P.restore m (r.2.contexts.getLastD (P.event m).uc)) r.2
      else return (.jump r.1, r.2)

/-- The two programs, before the first instruction. -/
def liveSession (P Q : Platform A) (k l : ℕ) (m : P.Machine) (a : Q.Machine) :
    Duplex (State A) (State A) Death (Leave × State A) (Leave × State A) :=
  .start (live P (masterSigill false) k m (.start A)) (live Q (apprenticeSigill false) l a (.start A))

/-! ### Two images side by side -/

/-- `arch_memblock` and `memblock` of a side. -/
@[ext]
structure Memblock (A : Arch) where
  arch : A.Ptr
  ptr : Option A.Ptr

/-- What `r0`, or its like, held when the signal came. -/
def Event.param (e : Event A) : A.Ptr := A.getReginfoParamreg (A.reginfoInit e.uc)

def Memblock.after (x : Memblock A) (op : RisuOp) (e : Event A) : Memblock A :=
  if op = .setmemblock then ⟨e.param, A.getArchMemory e.param⟩ else x

/-- The context that a side hands back for its own event. -/
def Memblock.handedBack (x : Memblock A) (op : RisuOp) (e : Event A) : A.Ucontext :=
  if op = .getmemblock then A.setUcontextParamreg e.uc (e.param + x.arch) else e.uc

/-- What the two programs remember from op to op: `is_setup`, which is the same on both sides, the
apprentice's `signal_count`, and the memory blocks. -/
structure Joint (A : Arch) where
  isSetup : Bool
  signals : ℕ
  left : Memblock A
  right : Memblock A

/-- Both sides in the same memory block. -/
def Joint.twice (isSetup : Bool) (signals : ℕ) (x : Memblock A) : Joint A :=
  ⟨isSetup, signals, x, x⟩

/-- Nothing has happened yet. -/
def Joint.start (A : Arch) : Joint A := .twice false 0 ⟨0, none⟩

/-- The apprentice has received one more signal. -/
def Joint.signal (j : Joint A) : Joint A := { j with signals := j.signals + 1 }

def Joint.after (j : Joint A) (op : RisuOp) (e f : Event A) : Joint A where
  isSetup := setupAfter op j.isSetup
  signals := j.signals + 1
  left := j.left.after op e
  right := j.right.after op f

/-- The two images stand at the ops `op` and `op'`, and neither is passed over; the block that the
master offers with a `COMPAREMEM` exists. -/
structure Meets (isSetup : Bool) (x : Memblock A) (e f : Event A) (op op' : RisuOp) : Prop where
  sigLeft : e.sig = .sigill
  sigRight : f.sig = .sigill
  opLeft : RisuOp.ofCode e.code = some op
  opRight : RisuOp.ofCode f.code = some op'
  keptLeft : ¬ e.Skipped isSetup
  keptRight : ¬ f.Skipped isSetup
  present : op = .comparemem → x.ptr.isSome = true

/-- The comparison of the registers has this result, where it is made. -/
def Compared (j : Joint A) (e f : Event A) (op : RisuOp) (result : Bool) : Prop :=
  op.isRegister = true → j.isSetup = false → ∃ ri,
    A.reginfoIsEq (j.signals + 1) (A.reginfoInit e.uc) (A.reginfoInit f.uc) = some (result, ri)

/-- The comparison of the memory blocks has this result. -/
def BlocksCompared (j : Joint A) (e f : Event A) (result : Bool) : Prop :=
  ∃ p q, j.left.ptr = some p ∧ j.right.ptr = some q ∧ (f.block q == e.block p) = result

/-- The context that the apprentice hands back when it has accepted a record. -/
def accepted (x : Memblock A) (op : RisuOp) (e f : Event A) : A.Ucontext :=
  if op = .compare then A.reginfoUpdate (A.reginfoInit e.uc) f.uc else x.handedBack op f

/-- The two images, executed side by side, come to a pair of ops that decides the test. -/
inductive Decides (P Q : Platform A) : Joint A → P.Machine → Q.Machine → RisuResult → Prop
  | stepLeft {j : Joint A} {m m' : P.Machine} {a : Q.Machine} {r : RisuResult} :
      P.step m = some m' → Decides P Q j m' a r → Decides P Q j m a r
  | stepRight {j : Joint A} {m : P.Machine} {a a' : Q.Machine} {r : RisuResult} :
      Q.step a = some a' → Decides P Q j m a' r → Decides P Q j m a r
  | skipLeft {j : Joint A} {m : P.Machine} {a : Q.Machine} {r : RisuResult} :
      P.step m = none → (P.event m).sig = .sigill → (P.event m).Skipped j.isSetup →
      Decides P Q j (P.restore m (A.advancePc (P.event m).uc)) a r → Decides P Q j m a r
  | skipRight {j : Joint A} {m : P.Machine} {a : Q.Machine} {r : RisuResult} :
      Q.step a = none → (Q.event a).sig = .sigill → (Q.event a).Skipped j.isSetup →
      Decides P Q j.signal m (Q.restore a (A.advancePc (Q.event a).uc)) r → Decides P Q j m a r
  /-- The record is accepted, and both images go on. -/
  | agree {j : Joint A} {m : P.Machine} {a : Q.Machine} {op : RisuOp} {r : RisuResult} :
      P.step m = none → Q.step a = none → Meets j.isSetup j.left (P.event m) (Q.event a) op op →
      op ≠ .testend → Compared j (P.event m) (Q.event a) op true →
      (op = .comparemem → BlocksCompared j (P.event m) (Q.event a) true) →
      Decides P Q (j.after op (P.event m) (Q.event a))
        (P.restore m (A.advancePc (j.left.handedBack op (P.event m))))
        (Q.restore a (A.advancePc (accepted j.right op (P.event m) (Q.event a)))) r →
      Decides P Q j m a r
  | testend {j : Joint A} {m : P.Machine} {a : Q.Machine} :
      P.step m = none → Q.step a = none →
      Meets j.isSetup j.left (P.event m) (Q.event a) .testend .testend →
      Compared j (P.event m) (Q.event a) .testend true → Decides P Q j m a .resEnd
  | mismatchReg {j : Joint A} {m : P.Machine} {a : Q.Machine} {op op' : RisuOp} :
      P.step m = none → Q.step a = none → Meets j.isSetup j.left (P.event m) (Q.event a) op op' →
      op.isRegister = true → op'.isRegister = true → j.isSetup = false →
      Compared j (P.event m) (Q.event a) op' false → Decides P Q j m a .mismatchReg
  | mismatchMem {j : Joint A} {m : P.Machine} {a : Q.Machine} :
      P.step m = none → Q.step a = none →
      Meets j.isSetup j.left (P.event m) (Q.event a) .comparemem .comparemem →
      BlocksCompared j (P.event m) (Q.event a) false → Decides P Q j m a .mismatchMem
  | mismatchOp {j : Joint A} {m : P.Machine} {a : Q.Machine} {op op' : RisuOp} :
      P.step m = none → Q.step a = none →
      Meets j.isSetup j.left (P.event m) (Q.event a) op op' → op ≠ op' →
      (op.isRegister = true → Compared j (P.event m) (Q.event a) op' true) →
      Decides P Q j m a .mismatchOp

/-! ### One record -/

section exchange

variable {e f : Event A} {s u : State A}
variable {v : RisuResult × A.Ucontext × State A}
variable {K L : RisuResult × A.Ucontext × State A → Handler A (Leave × State A)}
variable {lf rf : Handler A (Leave × State A)}

/-- The last packet of a record: it is consumed, compared and answered. -/
theorem settles_judged {op : RisuOp} {pkt : List Byte} {r : Handler A (Leave × State A)}
    (hlen : pkt.length < 2 ^ 31) (hq : r.Quiet) (hv : verdict f u = .ok v)
    (heat : Eats (fun _ => True) r (frame pkt) (judgeRecord false f (.ok, u) >>= L))
    (hset : Settles (Seen fun _ _ => True)
      (K (if v.1 = .ok then masterFinish op s e else (.resEnd, e.uc, s))) (L v) lf rf) :
    Settles (Seen fun _ _ => True) (sendDataPkt s pkt >>= fun res =>
      (if res ≠ .ok then .ret (res, e.uc, s) else .ret (masterFinish op s e)) >>= K) r lf rf := by
  have hj : (judgeRecord false f (.ok, u) >>= L) =
      (sendResponseByte v.2.2 (if v.1 = .ok then .ok else .resEnd) >>= fun _ => L v) := by
    simp [judgeRecord_ok, hv, finishCompare, respond]
  rw [hj] at heat
  refine settles_exchange hlen hq heat trivial ?_
  by_cases hok : v.1 = .ok
  · rw [if_pos hok] at hset ⊢
    rwa [ofByte_ok, if_neg (by decide), ret_bind]
  · rw [if_neg hok] at hset ⊢
    rwa [ofByte_resEnd, if_pos (by decide), ret_bind]

/-- **One record, from offer to answer**, whatever either side does afterwards. -/
theorem settles_record (hA : A.swapsHeader = false) {op : RisuOp}
    (hmiss : (recordOf op s e).payload.isMissing = false)
    (hv : verdict f (storeRecord u (recordOf op s e)) = .ok v)
    (hset : Settles (Seen fun _ _ => True)
      (K (if v.1 = .ok then masterFinish op (masterRecord op s e) e
        else (.resEnd, e.uc, masterRecord op s e))) (L v) lf rf) :
    Settles (Seen fun _ _ => True) (sendRecord false op (masterRecord op s e) e >>= K)
      (recvRegisterInfo false u >>= fun r => judgeRecord false f r >>= L) lf rf := by
  have hsound := recordOf_sound op s e
  have hpacket := masterPacket_eq (Arch.distorts_of_native hA op) s e
  have hquiet : (recvRegisterInfo false u >>= fun r => judgeRecord false f r >>= L).Quiet := by
    obtain ⟨k, hk⟩ := recvRegisterInfo_reading u fun r => judgeRecord false f r >>= L
    rw [hk]
    trivial
  rw [sendRecord_eq, hpacket]
  have hlen := (recordOf op s e).wireHeader_bytes_lt
  have hheader := eats_recvRegisterInfo (P := fun _ => True) (s := u) (fun _ _ => trivial)
    (headerArchToHost_wireHeader (recordOf op s e)) (fun r => judgeRecord false f r >>= L) trivial
  rw [show (recordOf op s e).op = op from rfl] at hheader
  by_cases hp : op.hasPayload = true
  · -- two packets: the header is acknowledged first
    have hafter : (afterHeader false (u.setHeader (recordOf op s e).header) op >>= fun r =>
        judgeRecord false f r >>= L) =
        (sendResponseByte (u.setHeader (recordOf op s e).header) .ok >>= fun _ =>
          (if op.isRegister then recvReginfo false (u.setHeader (recordOf op s e).header)
            else recvMemblock false (u.setHeader (recordOf op s e).header)) >>= fun r =>
              judgeRecord false f r >>= L) := by
      simp [afterHeader, hp, respond]
    rw [hafter] at hheader
    rw [hsound.packet hmiss hp, bind_assoc]
    refine settles_exchange hlen hquiet hheader trivial ?_
    rw [ofByte_ok, if_neg (by decide), bind_assoc]
    refine settles_judged hsound.payload_lt (recvPayload_quiet _ _ _) hv ?_ hset
    exact eats_recvPayload (P := fun _ => True) (fun _ _ => trivial) hsound hp hmiss
      (fun r => judgeRecord false f r >>= L) trivial
  · -- one packet
    have hpkt := hsound.no_packet hp u
    have hafter : (afterHeader false (u.setHeader (recordOf op s e).header) op >>= fun r =>
        judgeRecord false f r >>= L) =
        (judgeRecord false f (.ok, storeRecord u (recordOf op s e)) >>= L) := by
      simp [afterHeader, hp, hpkt.2]
    rw [hafter] at hheader
    rw [hpkt.1, bind_assoc]
    exact settles_judged hlen hquiet hv hheader hset

end exchange

/-! ### What a side remembers -/

/-- `is_setup` and the memory block. -/
def State.view (s : State A) : Bool × Memblock A := (s.isSetup, ⟨s.archMemblock, s.memblock⟩)

section view

variable {s : State A} {e : Event A} {op : RisuOp}

theorem countSigill_view (s : State A) (c : BitVec 32) : (s.countSigill c).view = s.view := by
  rw [State.countSigill]
  split <;> rfl

theorem enterMaster_view (s : State A) (e : Event A) : (s.enterMaster e).view = s.view :=
  countSigill_view _ _

theorem enterApprentice_view (s : State A) (e : Event A) : (s.enterApprentice e).view = s.view :=
  countSigill_view _ _

theorem storeRecord_view (s : State A) (r : Record A) : (storeRecord s r).view = s.view := by
  rw [storeRecord]
  split <;> rfl

theorem resume_view (e : Event A) (r : RisuResult × A.Ucontext × State A) :
    (resume e r).2.view = r.2.2.view := by
  rw [resume]
  split <;> rfl

/-- What an accepted record changes on the master's side. -/
theorem masterFinish_view (hop : op ≠ .testend) (hri : s.riMaster = A.reginfoInit e.uc) :
    (masterFinish op (masterRecord op s e) e).2.1 = s.view.2.handedBack op e ∧
      (masterFinish op (masterRecord op s e) e).2.2.view =
        (setupAfter op s.isSetup, s.view.2.after op e) := by
  cases op with
  | testend => exact absurd rfl hop
  | sigill | compare | comparemem | setupbegin | setupend => exact ⟨rfl, rfl⟩
  | setmemblock =>
    refine ⟨rfl, ?_⟩
    show (s.isSetup, (⟨A.getReginfoParamreg s.riMaster,
      A.getArchMemory (A.getReginfoParamreg s.riMaster)⟩ : Memblock A)) = _
    rw [hri]
    rfl
  | getmemblock =>
    refine ⟨?_, rfl⟩
    show A.setUcontextParamreg e.uc (A.getReginfoParamreg s.riMaster + s.archMemblock) = _
    rw [hri]
    rfl

end view

/-! ### What the record comes to -/

section verdict

variable {j : Joint A} {e f : Event A} {op op' : RisuOp} {s t : State A}

/-- The apprentice's state when the record of `e` has arrived at its event `f`. -/
def arrived (op : RisuOp) (s t : State A) (e f : Event A) : State A :=
  storeRecord (t.enterApprentice f) (recordOf op (s.enterMaster e) e)

theorem arrived_risuOp : (arrived op s t e f).header.risuOp = op.code := by
  rw [arrived, storeRecord_header]
  rfl

theorem arrived_view : (arrived op s t e f).view = t.view :=
  (storeRecord_view _ _).trans (enterApprentice_view t f)

/-- The apprentice has its own registers at hand, and its `signal_count` has gone up. -/
theorem arrived_own : (arrived op s t e f).riApprentice = A.reginfoInit f.uc ∧
    (arrived op s t e f).signalCount = t.signalCount + 1 := by
  have hkeep : ∀ (u : State A) (r : Record A), (storeRecord u r).riApprentice = u.riApprentice ∧
      (storeRecord u r).signalCount = u.signalCount := by
    intro u r
    rw [storeRecord]
    split <;> exact ⟨rfl, rfl⟩
  obtain ⟨hri, hcount⟩ := hkeep (t.enterApprentice f) (recordOf op (s.enterMaster e) e)
  exact ⟨hri.trans (by simp [State.enterApprentice]), hcount.trans (by simp [State.enterApprentice])⟩

theorem enterMaster_riMaster (s : State A) (e : Event A) :
    (s.enterMaster e).riMaster = A.reginfoInit e.uc := by
  simp [State.enterMaster]

/-- The master's registers have arrived with a record of registers. -/
theorem arrived_regs (hop : op.isRegister = true) :
    (arrived op s t e f).riMaster = A.reginfoInit e.uc := by
  cases op with
  | sigill | compare | testend => exact enterMaster_riMaster s e
  | setmemblock | getmemblock | comparemem | setupbegin | setupend => cases hop

/-- The master's block has arrived with a record of memory. -/
theorem arrived_block {p : A.Ptr} (hp : s.memblock = some p) :
    (arrived .comparemem s t e f).otherMemblock.1 = e.block p := by
  have hmem : (s.enterMaster e).memblock = some p := by simp [State.enterMaster, hp]
  rw [arrived, storeRecord, recordOf]
  simp only [hmem, Option.elim_some]
  exact Block.store_val _ (e.block_length p)

/-- The op of a record of registers is one of three. -/
theorem isRegister_code (hop : op.isRegister = true) {c : BitVec 32} (hcode : c = op.code) :
    ¬(c ≠ RisuOp.compare.code ∧ c ≠ RisuOp.testend.code ∧ c ≠ RisuOp.sigill.code) := by
  rw [hcode]
  cases op with
  | sigill | compare | testend => decide
  | setmemblock | getmemblock | comparemem | setupbegin | setupend => cases hop

theorem verdict_eq {u : State A} {w : RisuResult × A.Ucontext × State A}
    (hop : RisuOp.ofCode f.code = some op) (h : compareRecord op u f = .ok w) :
    verdict f u = .ok (noteCompleted op w) := by
  rw [verdict, hop]
  simp only
  rw [h]
  rfl

/-- A record of registers arrives at a register op. -/
theorem compareRecord_arrived (hop' : op'.isRegister = true) (hop : op.isRegister = true)
    {u : State A} (hcode : u.header.risuOp = op.code) {res : Bool} {ri : A.Reginfo}
    (hsetup : u.isSetup = false)
    (heq : A.reginfoIsEq u.signalCount u.riMaster u.riApprentice = some (res, ri)) :
    compareRecord op' u f = .ok (if res then registerVerdict op' { u with riApprentice := ri } f
      else (.mismatchReg, f.uc, { u with riApprentice := ri })) := by
  cases op' with
  | sigill | compare | testend =>
    simp only [compareRecord, if_neg (isRegister_code hop hcode), hsetup, heq]
    cases res <;> rfl
  | setmemblock | getmemblock | comparemem | setupbegin | setupend => cases hop'

/-- During setup the registers are not compared. -/
theorem compareRecord_unchecked (hop' : op'.isRegister = true) (hop : op.isRegister = true)
    {u : State A} (hcode : u.header.risuOp = op.code) (hsetup : u.isSetup = true) :
    compareRecord op' u f = .ok (registerVerdict op' u f) := by
  cases op' with
  | sigill | compare | testend =>
    simp only [compareRecord, if_neg (isRegister_code hop hcode), hsetup]
    rfl
  | setmemblock | getmemblock | comparemem | setupbegin | setupend => cases hop'

/-- What the master remembers is what the joint state says. -/
def Joint.Left (j : Joint A) (s : State A) : Prop := s.view = (j.isSetup, j.left)

/-- What the apprentice remembers is what the joint state says. -/
structure Joint.Right (j : Joint A) (t : State A) : Prop where
  view : t.view = (j.isSetup, j.right)
  signals : t.signalCount = j.signals

theorem Joint.Right.isSetup (h : j.Right t) : t.isSetup = j.isSetup := congrArg Prod.fst h.view

theorem Joint.Right.block (h : j.Right t) : t.memblock = j.right.ptr :=
  congrArg (fun v => v.2.ptr) h.view

theorem Joint.Right.arch (h : j.Right t) : t.archMemblock = j.right.arch :=
  congrArg (fun v => v.2.arch) h.view

theorem Joint.Left.block (h : j.Left s) : s.memblock = j.left.ptr :=
  congrArg (fun v => v.2.ptr) h

/-- When a record has arrived, the apprentice has counted its signal and remembers what it did. -/
theorem Joint.Right.arrived (h : j.Right t) (op : RisuOp) (s : State A) (e f : Event A) :
    j.signal.Right (arrived op s t e f) where
  view := arrived_view.trans h.view
  signals := by rw [arrived_own.2, h.signals]; rfl

/-- A comparison that is accepted leaves the verdict to the op. -/
theorem compareRecord_compared (hop' : op'.isRegister = true) (hop : op.isRegister = true)
    (ht : j.Right t) (h : Compared j e f op' true) :
    ∃ ri, compareRecord op' (arrived op s t e f) f =
      .ok (registerVerdict op' { arrived op s t e f with riApprentice := ri } f) := by
  have hat := ht.arrived op s e f
  by_cases hsetup : j.isSetup = true
  · exact ⟨_, compareRecord_unchecked hop' hop arrived_risuOp (hat.isSetup.trans hsetup)⟩
  · have hsetup : j.isSetup = false := Bool.eq_false_of_not_eq_true hsetup
    obtain ⟨ri, heq⟩ := h hop' hsetup
    refine ⟨ri, ?_⟩
    rw [compareRecord_arrived hop' hop arrived_risuOp (hat.isSetup.trans hsetup)
      (by rw [hat.signals, arrived_own.1, arrived_regs hop]; exact heq)]
    rfl

/-- An accepted record of registers. -/
theorem verdict_agreeRegs (hmeet : Meets j.isSetup j.left e f op op) (hreg : op.isRegister = true)
    (hne : op ≠ .testend) (ht : j.Right t) (h : Compared j e f op true) :
    ∃ v, verdict f (arrived op s t e f) = .ok v ∧ v.1 = .ok ∧ v.2.1 = accepted j.right op e f ∧
      (j.after op e f).Right v.2.2 := by
  have hcode : ¬ op.code ≠ (arrived op s t e f).header.risuOp := by
    rw [not_not]
    exact arrived_risuOp.symm
  have hat := ht.arrived op s e f
  obtain ⟨ri, hrec⟩ := compareRecord_compared (s := s) hreg hreg ht h
  refine ⟨_, verdict_eq hmeet.opRight hrec, ?_⟩
  have hverdict : registerVerdict op { arrived op s t e f with riApprentice := ri } f =
      (.ok, accepted j.right op e f, { arrived op s t e f with riApprentice := ri }) := by
    rw [registerVerdict, if_neg hcode, if_neg hne, accepted]
    simp only [arrived_regs hreg]
    cases op with
    | sigill | compare => rfl
    | testend => exact absurd rfl hne
    | setmemblock | getmemblock | comparemem | setupbegin | setupend => cases hreg
  rw [hverdict, noteCompleted, if_pos rfl]
  refine ⟨rfl, rfl, ?_, hat.signals⟩
  refine hat.view.trans ?_
  cases op with
  | sigill | compare | testend => rfl
  | setmemblock | getmemblock | comparemem | setupbegin | setupend => cases hreg

/-- What a comparison of memory blocks comes to. -/
theorem compareRecord_memory (hs : j.Left s) (ht : j.Right t) {res : Bool}
    (h : BlocksCompared j e f res) : compareRecord .comparemem (arrived .comparemem s t e f) f =
      .ok (if res then .ok else .mismatchMem, f.uc, arrived .comparemem s t e f) := by
  obtain ⟨p, q, hp, hq, hres⟩ := h
  have hat := ht.arrived .comparemem s e f
  have hmem : (arrived .comparemem s t e f).memblock = some q := hat.block.trans hq
  have hother : (arrived .comparemem s t e f).otherMemblock.1 = e.block p :=
    arrived_block (hs.block.trans hp)
  have hcode : ¬ RisuOp.comparemem.code ≠ (arrived .comparemem s t e f).header.risuOp := by
    rw [not_not]
    exact arrived_risuOp.symm
  rw [compareRecord, if_neg hcode, hmem]
  simp only [hother]
  cases res with
  | true => rw [if_neg (not_not.mpr (beq_iff_eq.mp hres))]; rfl
  | false => rw [if_pos (beq_eq_false_iff_ne.mp hres)]; rfl

/-- An accepted record of memory. -/
theorem verdict_agreeMem (hmeet : Meets j.isSetup j.left e f .comparemem .comparemem) (hs : j.Left s)
    (ht : j.Right t) (h : BlocksCompared j e f true) :
    ∃ v, verdict f (arrived .comparemem s t e f) = .ok v ∧ v.1 = .ok ∧
      v.2.1 = accepted j.right .comparemem e f ∧ (j.after .comparemem e f).Right v.2.2 := by
  have hat := ht.arrived .comparemem s e f
  exact ⟨_, verdict_eq hmeet.opRight (compareRecord_memory hs ht h), rfl, rfl, hat.view, hat.signals⟩

/-- An accepted record without payload. -/
theorem verdict_agreeNone (hmeet : Meets j.isSetup j.left e f op op) (hop : op.hasPayload = false)
    (ht : j.Right t) :
    ∃ v, verdict f (arrived op s t e f) = .ok v ∧ v.1 = .ok ∧ v.2.1 = accepted j.right op e f ∧
      (j.after op e f).Right v.2.2 := by
  have hcode : ¬ op.code ≠ (arrived op s t e f).header.risuOp := by
    rw [not_not]
    exact arrived_risuOp.symm
  have hat := ht.arrived op s e f
  have hblock : (arrived op s t e f).view.2 = j.right := congrArg Prod.snd hat.view
  have hri : A.getReginfoParamreg (arrived op s t e f).riApprentice = f.param := by
    rw [arrived_own.1, Event.param]
  cases op with
  | sigill | compare | testend | comparemem => cases hop
  | setupbegin | setupend =>
    refine ⟨_, verdict_eq hmeet.opRight (by rw [compareRecord, if_neg hcode]), ?_⟩
    exact ⟨rfl, rfl, Prod.ext rfl hblock, hat.signals⟩
  | setmemblock =>
    refine ⟨_, verdict_eq hmeet.opRight (by rw [compareRecord, if_neg hcode]), ?_⟩
    refine ⟨rfl, rfl, Prod.ext hat.isSetup ?_, hat.signals⟩
    show (⟨A.getReginfoParamreg (arrived .setmemblock s t e f).riApprentice, A.getArchMemory
      (A.getReginfoParamreg (arrived .setmemblock s t e f).riApprentice)⟩ : Memblock A) = _
    rw [hri]
    rfl
  | getmemblock =>
    refine ⟨_, verdict_eq hmeet.opRight (by rw [compareRecord, if_neg hcode]), ?_⟩
    refine ⟨rfl, ?_, hat.view, hat.signals⟩
    show A.setUcontextParamreg f.uc (A.getReginfoParamreg (arrived .getmemblock s t e f).riApprentice +
      (arrived .getmemblock s t e f).archMemblock) = _
    rw [hri, hat.arch]
    rfl

/-- **An accepted record.** -/
theorem verdict_agree (hmeet : Meets j.isSetup j.left e f op op) (hne : op ≠ .testend) (hs : j.Left s)
    (ht : j.Right t) (h : Compared j e f op true)
    (hmem : op = .comparemem → BlocksCompared j e f true) :
    ∃ v, verdict f (arrived op s t e f) = .ok v ∧ v.1 = .ok ∧ v.2.1 = accepted j.right op e f ∧
      (j.after op e f).Right v.2.2 := by
  by_cases hreg : op.isRegister = true
  · exact verdict_agreeRegs hmeet hreg hne ht h
  · by_cases hop : op = .comparemem
    · subst hop
      exact verdict_agreeMem hmeet hs ht (hmem rfl)
    · refine verdict_agreeNone hmeet ?_ ht
      rw [RisuOp.hasPayload, Bool.eq_false_of_not_eq_true hreg, Bool.false_or]
      exact beq_false_of_ne hop

theorem verdict_testend (hmeet : Meets j.isSetup j.left e f .testend .testend) (ht : j.Right t)
    (h : Compared j e f .testend true) :
    ∃ v, verdict f (arrived .testend s t e f) = .ok v ∧ v.1 = .resEnd := by
  have hreg : RisuOp.testend.isRegister = true := rfl
  obtain ⟨ri, hrec⟩ := compareRecord_compared (s := s) hreg hreg ht h
  have hcode : ¬ RisuOp.testend.code ≠ (arrived .testend s t e f).header.risuOp := by
    rw [not_not]
    exact arrived_risuOp.symm
  refine ⟨_, verdict_eq hmeet.opRight hrec, ?_⟩
  rw [registerVerdict, if_neg hcode, if_pos rfl]
  rfl

theorem verdict_mismatchReg (hmeet : Meets j.isSetup j.left e f op op') (hop : op.isRegister = true)
    (hop' : op'.isRegister = true) (hsetup : j.isSetup = false) (ht : j.Right t)
    (h : Compared j e f op' false) :
    ∃ v, verdict f (arrived op s t e f) = .ok v ∧ v.1 = .mismatchReg := by
  have hat := ht.arrived op s e f
  obtain ⟨ri, heq⟩ := h hop' hsetup
  have hrec := compareRecord_arrived (f := f) hop' hop arrived_risuOp (hat.isSetup.trans hsetup)
    (by rw [hat.signals, arrived_own.1, arrived_regs hop]; exact heq)
  exact ⟨_, verdict_eq hmeet.opRight hrec, rfl⟩

theorem verdict_mismatchMem (hmeet : Meets j.isSetup j.left e f .comparemem .comparemem) (hs : j.Left s)
    (ht : j.Right t) (h : BlocksCompared j e f false) :
    ∃ v, verdict f (arrived .comparemem s t e f) = .ok v ∧ v.1 = .mismatchMem :=
  ⟨_, verdict_eq hmeet.opRight (compareRecord_memory hs ht h), rfl⟩

theorem verdict_mismatchOp (hmeet : Meets j.isSetup j.left e f op op') (hne : op ≠ op') (ht : j.Right t)
    (h : op.isRegister = true → Compared j e f op' true) :
    ∃ v, verdict f (arrived op s t e f) = .ok v ∧ v.1 = .mismatchOp := by
  have hcode : op'.code ≠ (arrived op s t e f).header.risuOp := by
    rw [arrived_risuOp]
    exact fun heq => hne (RisuOp.code_injective heq.symm)
  by_cases hop' : op'.isRegister = true
  · by_cases hop : op.isRegister = true
    · obtain ⟨ri, hrec⟩ := compareRecord_compared (s := s) hop' hop ht (h hop)
      refine ⟨_, verdict_eq hmeet.opRight hrec, ?_⟩
      rw [registerVerdict, if_pos hcode]
      rfl
    · have hthree : (arrived op s t e f).header.risuOp ≠ RisuOp.compare.code ∧
          (arrived op s t e f).header.risuOp ≠ RisuOp.testend.code ∧
          (arrived op s t e f).header.risuOp ≠ RisuOp.sigill.code := by
        rw [arrived_risuOp]
        cases op with
        | sigill | compare | testend => exact absurd rfl hop
        | setmemblock | getmemblock | comparemem | setupbegin | setupend => decide
      cases op' with
      | sigill | compare | testend =>
        exact ⟨_, verdict_eq hmeet.opRight (by rw [compareRecord, if_pos hthree]), rfl⟩
      | setmemblock | getmemblock | comparemem | setupbegin | setupend => cases hop'
  · cases op' with
    | sigill | compare | testend => exact absurd rfl hop'
    | setmemblock | getmemblock | comparemem | setupbegin | setupend =>
      exact ⟨_, verdict_eq hmeet.opRight (by rw [compareRecord, if_pos hcode]), rfl⟩

end verdict

/-! ### The loops -/

section loops

variable {P Q : Platform A} {k : ℕ} {m : P.Machine} {a : Q.Machine} {s t : State A}

/-- What a side does after a handler call: it goes on from the context handed back, or leaves. -/
def liveNext (P : Platform A) (handler : State A → Event A → Handler A (RisuResult × State A))
    (k : ℕ) (m : P.Machine) (r : RisuResult × A.Ucontext × State A) :
    Handler A (Leave × State A) :=
  if r.1 = .ok then
    live P handler k (P.restore m (A.advancePc r.2.1)) (resume (P.event m) r).2
  else .ret (.jump r.1, (resume (P.event m) r).2)

theorem resume_contexts {e : Event A} {r : RisuResult × A.Ucontext × State A} (h : r.1 = .ok)
    (uc : A.Ucontext) : (resume e r).2.contexts.getLastD uc = A.advancePc r.2.1 := by
  rw [resume, if_pos h]
  simp

theorem live_resume (handler : State A → Event A → Handler A (RisuResult × State A))
    (r : RisuResult × A.Ucontext × State A) :
    (if (resume (P.event m) r).1 = .ok then
      live P handler k
        (P.restore m ((resume (P.event m) r).2.contexts.getLastD (P.event m).uc))
        (resume (P.event m) r).2
    else (.ret (.jump (resume (P.event m) r).1, (resume (P.event m) r).2) :
      Handler A (Leave × State A))) = liveNext P handler k m r := by
  rw [liveNext, resume_fst]
  by_cases h : r.1 = .ok
  · rw [if_pos h, if_pos h, resume_contexts h]
  · rw [if_neg h, if_neg h]

theorem live_step {m' : P.Machine} (h : P.step m = some m')
    (handler : State A → Event A → Handler A (RisuResult × State A)) :
    live P handler (k + 1) m s = live P handler k m' s := by
  rw [live, h]

theorem live_stop (h : P.step m = none)
    (handler : State A → Event A → Handler A (RisuResult × State A)) :
    live P handler (k + 1) m s = handler s (P.event m) >>= fun r =>
      if r.1 = .ok then live P handler k (P.restore m (r.2.contexts.getLastD (P.event m).uc)) r.2
      else .ret (.jump r.1, r.2) := by
  rw [live, h]
  rfl

theorem live_master (h : P.step m = none) (hsig : (P.event m).sig = .sigill) :
    live P (masterSigill false) (k + 1) m s =
      if (P.event m).Skipped s.isSetup then
        live P (masterSigill false) k (P.restore m (A.advancePc (P.event m).uc))
          (resume (P.event m) (.ok, (P.event m).uc, s.enterMaster (P.event m))).2
      else
        match RisuOp.ofCode (P.event m).code with
        | none => .halt (s.enterMaster (P.event m)) .abort
        | some op =>
          sendRecord false op (masterRecord op (s.enterMaster (P.event m)) (P.event m)) (P.event m) >>=
            liveNext P (masterSigill false) k m := by
  have hstate : State.countSigill { s with
      signalCount := s.signalCount + 1, riMaster := A.reginfoInit (P.event m).uc } (P.event m).code =
      s.enterMaster (P.event m) := rfl
  have hsetup : (s.enterMaster (P.event m)).isSetup = s.isSetup := by simp [State.enterMaster]
  rw [live_stop h, masterSigill, hsig]
  simp only [sendRegisterInfo, hstate, bind_assoc, pure_eq, ret_bind, hsetup]
  by_cases hskip : (P.event m).Skipped s.isSetup
  · rw [if_pos hskip, if_pos hskip, ret_bind, live_resume]
    rfl
  · rw [if_neg hskip, if_neg hskip]
    cases RisuOp.ofCode (P.event m).code with
    | none => rfl
    | some op => simp only [live_resume]

theorem live_apprentice (h : Q.step a = none) (hsig : (Q.event a).sig = .sigill) :
    live Q (apprenticeSigill false) (k + 1) a t =
      if (Q.event a).Skipped t.isSetup then
        live Q (apprenticeSigill false) k (Q.restore a (A.advancePc (Q.event a).uc))
          (resume (Q.event a) (.ok, (Q.event a).uc, t.enterApprentice (Q.event a))).2
      else recvRegisterInfo false (t.enterApprentice (Q.event a)) >>= fun r =>
        judgeRecord false (Q.event a) r >>= liveNext Q (apprenticeSigill false) k a := by
  have hstate : State.countSigill { t with
      signalCount := t.signalCount + 1, riApprentice := A.reginfoInit (Q.event a).uc } (Q.event a).code =
      t.enterApprentice (Q.event a) := rfl
  have hsetup : (t.enterApprentice (Q.event a)).isSetup = t.isSetup := by
    simp [State.enterApprentice]
  rw [live_stop h, apprenticeSigill, hsig]
  simp only [recvAndCompareRegisterInfo, hstate, bind_assoc, pure_eq, ret_bind, hsetup]
  by_cases hskip : (Q.event a).Skipped t.isSetup
  · rw [if_pos hskip, if_pos hskip, ret_bind, live_resume]
    rfl
  · rw [if_neg hskip, if_neg hskip]
    simp only [bind_assoc, live_resume]

theorem live_skipLeft (h : P.step m = none) (hsig : (P.event m).sig = .sigill)
    (hskip : (P.event m).Skipped s.isSetup) :
    live P (masterSigill false) (k + 1) m s =
      live P (masterSigill false) k (P.restore m (A.advancePc (P.event m).uc))
        (resume (P.event m) (.ok, (P.event m).uc, s.enterMaster (P.event m))).2 := by
  rw [live_master h hsig, if_pos hskip]

theorem live_skipRight (h : Q.step a = none) (hsig : (Q.event a).sig = .sigill)
    (hskip : (Q.event a).Skipped t.isSetup) :
    live Q (apprenticeSigill false) (k + 1) a t =
      live Q (apprenticeSigill false) k (Q.restore a (A.advancePc (Q.event a).uc))
        (resume (Q.event a) (.ok, (Q.event a).uc, t.enterApprentice (Q.event a))).2 := by
  rw [live_apprentice h hsig, if_pos hskip]

/-- A record that the master offers has its payload. -/
theorem Meets.whole {j : Joint A} {e f : Event A} {op op' : RisuOp} (h : Meets j.isSetup j.left e f op op')
    (hs : j.Left s) : (recordOf op (s.enterMaster e) e).payload.isMissing = false := by
  cases op with
  | sigill | compare | testend | setmemblock | getmemblock | setupbegin | setupend => rfl
  | comparemem =>
    obtain ⟨p, hp⟩ := Option.isSome_iff_exists.mp (h.present rfl)
    have hmem : (s.enterMaster e).memblock = some p := by
      simpa [State.enterMaster] using hs.block.trans hp
    rw [recordOf]
    simp only [hmem]
    rfl

/-- **One op of both images**: what is left of the two programs is what they do after the verdict. -/
theorem settles_meet (hA : A.swapsHeader = false) {j : Joint A} {op op' : RisuOp} {l : ℕ}
    (hm : P.step m = none) (ha : Q.step a = none)
    (hmeet : Meets j.isSetup j.left (P.event m) (Q.event a) op op')
    (hs : j.Left s) (ht : j.Right t) {v : RisuResult × A.Ucontext × State A}
    (hv : verdict (Q.event a) (arrived op s t (P.event m) (Q.event a)) = .ok v)
    {lf rf : Handler A (Leave × State A)}
    (hset : Settles (Seen fun _ _ => True)
      (liveNext P (masterSigill false) k m (if v.1 = .ok then
          masterFinish op (masterRecord op (s.enterMaster (P.event m)) (P.event m)) (P.event m)
        else (.resEnd, (P.event m).uc,
          masterRecord op (s.enterMaster (P.event m)) (P.event m))))
      (liveNext Q (apprenticeSigill false) l a v) lf rf) :
    Settles (Seen fun _ _ => True) (live P (masterSigill false) (k + 1) m s)
      (live Q (apprenticeSigill false) (l + 1) a t) lf rf := by
  have hsetup : s.isSetup = j.isSetup := congrArg Prod.fst hs
  rw [live_master hm hmeet.sigLeft, if_neg (by rw [hsetup]; exact hmeet.keptLeft),
    live_apprentice ha hmeet.sigRight, if_neg (by rw [ht.isSetup]; exact hmeet.keptRight),
    hmeet.opLeft]
  exact settles_record hA (hmeet.whole hs) hv hset

/-- The two programs stop: the master is told to exit. -/
theorem settles_stop (hA : A.swapsHeader = false) {j : Joint A} {op op' : RisuOp} {l : ℕ}
    (hm : P.step m = none) (ha : Q.step a = none)
    (hmeet : Meets j.isSetup j.left (P.event m) (Q.event a) op op')
    (hs : j.Left s) (ht : j.Right t) {r : RisuResult} (hr : r ≠ .ok)
    (hv : ∃ v, verdict (Q.event a) (arrived op s t (P.event m) (Q.event a)) = .ok v ∧ v.1 = r) :
    ∃ sf tf, Settles (Seen fun _ _ => True) (live P (masterSigill false) (k + 1) m s)
      (live Q (apprenticeSigill false) (l + 1) a t) (.ret (.jump .resEnd, sf))
      (.ret (.jump r, tf)) := by
  obtain ⟨v, hv, rfl⟩ := hv
  have hleft : liveNext P (masterSigill false) k m (if v.1 = .ok then
        masterFinish op (masterRecord op (s.enterMaster (P.event m)) (P.event m)) (P.event m)
      else (.resEnd, (P.event m).uc, masterRecord op (s.enterMaster (P.event m)) (P.event m))) =
      .ret (.jump .resEnd, (resume (P.event m) (.resEnd, (P.event m).uc,
        masterRecord op (s.enterMaster (P.event m)) (P.event m))).2) := by
    rw [if_neg hr, liveNext, if_neg (show RisuResult.resEnd ≠ .ok by decide)]
  have hright : liveNext Q (apprenticeSigill false) l a v =
      .ret (.jump v.1, (resume (Q.event a) v).2) := by
    rw [liveNext, if_neg hr]
  have hset := Settles.leftDone (Q := Seen (fun _ _ : State A => True))
    (l := liveNext P (masterSigill false) k m (if v.1 = .ok then
        masterFinish op (masterRecord op (s.enterMaster (P.event m)) (P.event m)) (P.event m)
      else (.resEnd, (P.event m).uc, masterRecord op (s.enterMaster (P.event m)) (P.event m))))
    (r := liveNext Q (apprenticeSigill false) l a v) trivial (by rw [hleft]; trivial)
    (by rw [hright]; trivial)
  have hmet := settles_meet hA hm ha hmeet hs ht hv hset
  rw [hleft, hright] at hmet
  exact ⟨_, _, hmet⟩

/-- The two programs, wherever they are cut off from some number of steps on, end so from here. -/
def Settled (P Q : Platform A) (j : Joint A) (m : P.Machine) (a : Q.Machine) (r : RisuResult) : Prop :=
  ∃ k₀, ∀ k l, k₀ ≤ k → k₀ ≤ l → ∀ s t : State A, j.Left s → j.Right t →
    ∃ sf tf, Settles (Seen fun _ _ => True) (live P (masterSigill false) k m s)
      (live Q (apprenticeSigill false) l a t) (.ret (.jump .resEnd, sf)) (.ret (.jump r, tf))

/-- A pair of ops at which the test stops. -/
theorem settled_stop (hA : A.swapsHeader = false) {j : Joint A} {op op' : RisuOp} {r : RisuResult}
    (hm : P.step m = none) (ha : Q.step a = none)
    (hmeet : Meets j.isSetup j.left (P.event m) (Q.event a) op op')
    (hr : r ≠ .ok) (hv : ∀ s t : State A, j.Left s → j.Right t →
      ∃ v, verdict (Q.event a) (arrived op s t (P.event m) (Q.event a)) = .ok v ∧ v.1 = r) :
    Settled P Q j m a r := by
  refine ⟨1, fun k l hk hl s t hs ht => ?_⟩
  obtain ⟨k, rfl⟩ := Nat.exists_eq_add_of_le' hk
  obtain ⟨l, rfl⟩ := Nat.exists_eq_add_of_le' hl
  exact settles_stop hA hm ha hmeet hs ht hr (hv s t hs ht)

/-- A pair of ops at which both go on. -/
theorem settled_agree (hA : A.swapsHeader = false) {j : Joint A} {op : RisuOp} {r : RisuResult}
    (hm : P.step m = none) (ha : Q.step a = none)
    (hmeet : Meets j.isSetup j.left (P.event m) (Q.event a) op op)
    (hne : op ≠ .testend) (hcomp : Compared j (P.event m) (Q.event a) op true)
    (hmem : op = .comparemem → BlocksCompared j (P.event m) (Q.event a) true)
    (hrest : Settled P Q (j.after op (P.event m) (Q.event a))
      (P.restore m (A.advancePc (j.left.handedBack op (P.event m))))
      (Q.restore a (A.advancePc (accepted j.right op (P.event m) (Q.event a)))) r) :
    Settled P Q j m a r := by
  obtain ⟨k₀, ih⟩ := hrest
  refine ⟨k₀ + 1, fun k l hk hl s t hs ht => ?_⟩
  obtain ⟨k, rfl⟩ := Nat.exists_eq_add_of_le' (Nat.le_of_add_left_le hk)
  obtain ⟨l, rfl⟩ := Nat.exists_eq_add_of_le' (Nat.le_of_add_left_le hl)
  obtain ⟨v, hv, hok, huc, hright⟩ := verdict_agree (s := s) hmeet hne hs ht hcomp hmem
  have hfin := masterFinish_ok hne (masterRecord op (s.enterMaster (P.event m)) (P.event m)) (P.event m)
  obtain ⟨hleft, hview⟩ := masterFinish_view hne (enterMaster_riMaster s (P.event m))
  have hs' : (s.enterMaster (P.event m)).view = (j.isSetup, j.left) :=
    (enterMaster_view s (P.event m)).trans hs
  have hsetup : (s.enterMaster (P.event m)).isSetup = j.isSetup := congrArg Prod.fst hs'
  rw [hs'] at hleft hview
  obtain ⟨sf, tf, hrest⟩ := ih k l (by omega) (by omega)
    (resume (P.event m) (masterFinish op (masterRecord op (s.enterMaster (P.event m)) (P.event m))
      (P.event m))).2 (resume (Q.event a) v).2
    ((resume_view _ _).trans (hview.trans (by rw [hsetup]; rfl)))
    ⟨(resume_view _ _).trans hright.view, (resume_signalCount _ _).trans hright.signals⟩
  refine ⟨sf, tf, settles_meet hA hm ha hmeet hs ht hv ?_⟩
  rw [if_pos hok, liveNext, if_pos hfin.1, hleft, liveNext, if_pos hok, huc]
  exact hrest

/-- **The two programs follow the two images.** -/
theorem Decides.settles (hA : A.swapsHeader = false) {j : Joint A} {r : RisuResult}
    (h : Decides P Q j m a r) : Settled P Q j m a r := by
  induction h with
  | stepLeft hstep _ ih =>
    obtain ⟨k₀, ih⟩ := ih
    refine ⟨k₀ + 1, fun k l hk hl s t hs ht => ?_⟩
    obtain ⟨k, rfl⟩ := Nat.exists_eq_add_of_le' (Nat.le_of_add_left_le hk)
    rw [live_step hstep]
    exact ih k l (by omega) (by omega) s t hs ht
  | stepRight hstep _ ih =>
    obtain ⟨k₀, ih⟩ := ih
    refine ⟨k₀ + 1, fun k l hk hl s t hs ht => ?_⟩
    obtain ⟨l, rfl⟩ := Nat.exists_eq_add_of_le' (Nat.le_of_add_left_le hl)
    rw [live_step hstep]
    exact ih k l (by omega) (by omega) s t hs ht
  | @skipLeft j m a r hstep hsig hskip _ ih =>
    obtain ⟨k₀, ih⟩ := ih
    refine ⟨k₀ + 1, fun k l hk hl s t hs ht => ?_⟩
    obtain ⟨k, rfl⟩ := Nat.exists_eq_add_of_le' (Nat.le_of_add_left_le hk)
    have hsetup : s.isSetup = j.isSetup := congrArg Prod.fst hs
    rw [live_skipLeft hstep hsig (by rw [hsetup]; exact hskip)]
    exact ih k l (by omega) (by omega) _ t
      ((resume_view _ _).trans ((enterMaster_view s (P.event m)).trans hs)) ht
  | @skipRight j m a r hstep hsig hskip _ ih =>
    obtain ⟨k₀, ih⟩ := ih
    refine ⟨k₀ + 1, fun k l hk hl s t hs ht => ?_⟩
    obtain ⟨l, rfl⟩ := Nat.exists_eq_add_of_le' (Nat.le_of_add_left_le hl)
    rw [live_skipRight hstep hsig (by rw [ht.isSetup]; exact hskip)]
    refine ih k l (by omega) (by omega) s _ hs ⟨?_, ?_⟩
    · exact (resume_view _ _).trans ((enterApprentice_view t (Q.event a)).trans ht.view)
    · rw [resume_signalCount, Joint.signal, ← ht.signals]
      simp [State.enterApprentice]
  | agree hm ha hmeet hne hcomp hmem _ ih => exact settled_agree hA hm ha hmeet hne hcomp hmem ih
  | testend hm ha hmeet hcomp =>
    exact settled_stop hA hm ha hmeet (by decide) fun _ _ _ ht => verdict_testend hmeet ht hcomp
  | mismatchReg hm ha hmeet hop hop' hsetup hcomp =>
    exact settled_stop hA hm ha hmeet (by decide) fun _ _ _ ht =>
      verdict_mismatchReg hmeet hop hop' hsetup ht hcomp
  | mismatchMem hm ha hmeet hcomp =>
    exact settled_stop hA hm ha hmeet (by decide) fun _ _ hs ht =>
      verdict_mismatchMem hmeet hs ht hcomp
  | mismatchOp hm ha hmeet hne hcomp =>
    exact settled_stop hA hm ha hmeet (by decide) fun _ _ _ ht =>
      verdict_mismatchOp hmeet hne ht hcomp

end loops

/-! ### One image twice -/

section twice

variable {P : Platform A}

/-- The image comes to `TESTEND`, every op before it being accepted. -/
inductive Finishes (P : Platform A) : Bool → Memblock A → P.Machine → Prop
  | step {b : Bool} {x : Memblock A} {m m' : P.Machine} :
      P.step m = some m' → Finishes P b x m' → Finishes P b x m
  | skip {b : Bool} {x : Memblock A} {m : P.Machine} :
      P.step m = none → (P.event m).sig = .sigill → (P.event m).Skipped b →
      Finishes P b x (P.restore m (A.advancePc (P.event m).uc)) → Finishes P b x m
  | op {b : Bool} {x : Memblock A} {m : P.Machine} {op : RisuOp} :
      P.step m = none → Meets b x (P.event m) (P.event m) op op → op ≠ .testend →
      Finishes P (setupAfter op b) (x.after op (P.event m))
        (P.restore m (A.advancePc (x.handedBack op (P.event m)))) → Finishes P b x m
  | testend {b : Bool} {x : Memblock A} {m : P.Machine} :
      P.step m = none → Meets b x (P.event m) (P.event m) .testend .testend → Finishes P b x m

/-- A record is accepted next to itself, and changes nothing. -/
structure Reflexive (A : Arch) : Prop where
  accepts : ∀ (n : ℕ) (uc : A.Ucontext), ∃ ri,
    A.reginfoIsEq n (A.reginfoInit uc) (A.reginfoInit uc) = some (true, ri)
  keeps : ∀ uc : A.Ucontext, A.reginfoUpdate (A.reginfoInit uc) uc = uc

/-- The apprentice hands back what the master does. -/
theorem Reflexive.accepted (hA : Reflexive A) (x : Memblock A) (op : RisuOp) (e : Event A) :
    accepted x op e e = x.handedBack op e := by
  rw [Risu.accepted]
  split_ifs with hop
  · rw [hA.keeps, hop]
    rfl
  · rfl

/-- **An image next to itself** comes to `TESTEND`. -/
theorem Finishes.decides (hA : Reflexive A) {b : Bool} {x : Memblock A} {m : P.Machine}
    (h : Finishes P b x m) : ∀ n, Decides P P (.twice b n x) m m .resEnd := by
  induction h with
  | step hstep _ ih => exact fun n => .stepLeft hstep (.stepRight hstep (ih n))
  | skip hstep hsig hskip _ ih =>
    exact fun n => .skipLeft hstep hsig hskip (.skipRight hstep hsig hskip (ih (n + 1)))
  | @op b x m op hstep hmeet hne _ ih =>
    refine fun n => .agree hstep hstep hmeet hne (fun _ _ => hA.accepts _ _) (fun hop => ?_) ?_
    · obtain ⟨p, hp⟩ := Option.isSome_iff_exists.mp (hmeet.present hop)
      exact ⟨p, p, hp, hp, beq_self_eq_true _⟩
    · rw [hA.accepted]
      exact ih (n + 1)
  | testend hstep hmeet => exact fun n => .testend hstep hstep hmeet fun _ _ => hA.accepts _ _

/-- Two machines of one kind: both execute an instruction, or both are led past one that is illegal. -/
inductive Abreast (P : Platform A) (b : Bool) : P.Machine × P.Machine → P.Machine × P.Machine → Prop
  | step {m a m' a' : P.Machine} : P.step m = some m' → P.step a = some a' →
      Abreast P b (m, a) (m', a')
  | skip {m a : P.Machine} : P.step m = none → P.step a = none → (P.event m).sig = .sigill →
      (P.event a).sig = .sigill → (P.event m).Skipped b → (P.event a).Skipped b →
      Abreast P b (m, a) (P.restore m (A.advancePc (P.event m).uc),
        P.restore a (A.advancePc (P.event a).uc))

section along

variable {b : Bool} {x : Memblock A} {s t : P.Machine × P.Machine}

/-- What a machine does is determined. -/
theorem Finishes.abreast (h : Abreast P b s t) (hfin : Finishes P b x s.1) : Finishes P b x t.1 := by
  cases h with
  | step hm _ =>
    cases hfin with
    | step hm' hfin =>
      obtain rfl := Option.some.inj (hm.symm.trans hm')
      exact hfin
    | skip hm' | op hm' | testend hm' => rw [hm] at hm'; cases hm'
  | skip hm _ _ _ hskip _ =>
    cases hfin with
    | step hm' => rw [hm] at hm'; cases hm'
    | skip _ _ _ hfin => exact hfin
    | op _ hmeet | testend _ hmeet => exact absurd hskip hmeet.keptLeft

theorem Finishes.op_inv {m : P.Machine} {op : RisuOp} (hfin : Finishes P b x m)
    (hm : P.step m = none) (hmeet : Meets b x (P.event m) (P.event m) op op) (hne : op ≠ .testend) :
    Finishes P (setupAfter op b) (x.after op (P.event m))
      (P.restore m (A.advancePc (x.handedBack op (P.event m)))) := by
  cases hfin with
  | step hm' => rw [hm] at hm'; cases hm'
  | skip _ _ hskip => exact absurd hskip hmeet.keptLeft
  | op _ hmeet' _ hfin =>
    obtain rfl := Option.some.inj (hmeet.opLeft.symm.trans hmeet'.opLeft)
    exact hfin
  | testend _ hmeet' => exact absurd (Option.some.inj (hmeet.opLeft.symm.trans hmeet'.opLeft)) hne

theorem Decides.abreast {r : RisuResult} (h : Abreast P b s t)
    (hdec : ∀ n, Decides P P (.twice b n x) t.1 t.2 r) (n : ℕ) :
    Decides P P (.twice b n x) s.1 s.2 r := by
  cases h with
  | step hm ha => exact .stepLeft hm (.stepRight ha (hdec n))
  | skip hm ha hsm hsa hkm hka => exact .skipLeft hm hsm hkm (.skipRight ha hsa hka (hdec (n + 1)))

theorem Finishes.of_abreast (h : Abreast P b s t) (hfin : Finishes P b x t.1) :
    Finishes P b x s.1 := by
  cases h with
  | step hm _ => exact .step hm hfin
  | skip hm _ hsig _ hskip _ => exact .skip hm hsig hskip hfin

theorem Finishes.of_walk (h : Relation.ReflTransGen (Abreast P b) s t) (hfin : Finishes P b x t.1) :
    Finishes P b x s.1 := by
  induction h using Relation.ReflTransGen.head_induction_on with
  | refl => exact hfin
  | head hstep _ ih => exact Finishes.of_abreast hstep ih

theorem Finishes.walk (h : Relation.ReflTransGen (Abreast P b) s t) (hfin : Finishes P b x s.1) :
    Finishes P b x t.1 := by
  induction h with
  | refl => exact hfin
  | tail _ hstep ih => exact ih.abreast hstep

theorem Decides.walk {r : RisuResult} (h : Relation.ReflTransGen (Abreast P b) s t)
    (hdec : ∀ n, Decides P P (.twice b n x) t.1 t.2 r) :
    ∀ n, Decides P P (.twice b n x) s.1 s.2 r := by
  induction h using Relation.ReflTransGen.head_induction_on with
  | refl => exact hdec
  | head hstep _ ih => exact Decides.abreast hstep ih

end along

end twice

/-- **The verdict of two images.**  When the images, executed side by side, come to a pair of ops that
decides the test, every run of the two programs comes to an end, and there the apprentice has left
with that result and the master has been told to exit. -/
theorem live_decided {P Q : Platform A} (hA : A.swapsHeader = false) {m : P.Machine} {a : Q.Machine}
    {r : RisuResult} (h : Decides P Q (.start A) m a r) :
    ∃ k₀, ∀ k l, k₀ ≤ k → k₀ ≤ l → (liveSession P Q k l m a).Stops ∧
      ∀ hist S, Run (liveSession P Q k l m a) hist S → S.Final →
        (∃ sf, S.left = .ret (.jump .resEnd, sf)) ∧ ∃ tf, S.right = .ret (.jump r, tf) := by
  obtain ⟨k₀, hk₀⟩ := h.settles hA
  refine ⟨k₀, fun k l hk hl => ?_⟩
  obtain ⟨sf, tf, hset⟩ := hk₀ k l hk hl (.start A) (.start A) rfl ⟨rfl, rfl⟩
  refine ⟨hset.outcome.1, fun hist S hrun hfinal => ?_⟩
  obtain ⟨hleft, hright⟩ := hset.outcome.2 hist S hrun hfinal
  exact ⟨⟨sf, hleft⟩, tf, hright⟩

end Risu
