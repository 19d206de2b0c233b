import Risu.Lib.Relate
import Risu.Receive
import Risu.Atomic

/-!
# What is left over from an earlier run

The file-scope variables of `risu.c` outlive a call of `risu_main`, which clears the counters and
`is_setup` only.  Here two playbacks or recordings of one image are compared that start with
different contents of the other variables.  `ri`, `header`, `other_memblock` and `signal_pc` are
written before they are read, so that their contents do not matter; `memblock` and `arch_memblock`
matter to an image that asks for its memory block before it sets one.

* `Alike ctxs m m' s t` — the states show the same, have handed back the contexts `ctxs`, and hold
  the memory blocks `m` and `m'`;
* `masterSigill_alike`, `apprenticeSigill_alike` — one event;
* `Image`, `imageRun` — an image that goes on from the contexts handed back to it;
* `imageRun_alike` — whole runs;
* `imageRun_events` — with given events, these runs are the loops of `Exchange`.
-/

namespace Risu

open Lib Lib.Process

variable {A : Arch}

/-! ### States -/

/-- What a handler reads of the state it is entered with, the memory block apart. -/
def State.shown (s : State A) : Bool × ℕ × ℕ × List A.Ucontext :=
  (s.isSetup, s.signalCount, s.illegalInstructions, s.contexts)

/-- `memblock` and `arch_memblock`. -/
def State.block (s : State A) : Option A.Ptr × A.Ptr := (s.memblock, s.archMemblock)

def Alike (ctxs : List A.Ucontext) (m m' : Option A.Ptr × A.Ptr) (s t : State A) : Prop :=
  t.shown = s.shown ∧ s.contexts = ctxs ∧ s.block = m ∧ t.block = m'

/-- The event asks for the memory block or compares it. -/
def Event.UsesBlock (e : Event A) : Prop :=
  RisuOp.ofCode e.code = some .getmemblock ∨ RisuOp.ofCode e.code = some .comparemem

def Event.SetsBlock (e : Event A) : Prop := RisuOp.ofCode e.code = some .setmemblock

theorem Event.not_setsBlock {e : Event A} {op : RisuOp} (hop : RisuOp.ofCode e.code = some op)
    (hne : op ≠ .setmemblock) : ¬ e.SetsBlock := by
  intro hset
  rw [Event.SetsBlock, hop] at hset
  exact hne (Option.some.inj hset)

/-- Two handler functions return alike: the same code and the same context.  A block that was set is
the same on both sides, otherwise the blocks are what they were. -/
structure Matched (ctxs : List A.Ucontext) (m m' : Option A.Ptr × A.Ptr) (e : Event A)
    (v v' : RisuResult × A.Ucontext × State A) : Prop where
  code : v'.1 = v.1
  context : v'.2.1 = v.2.1
  kept : ¬ (v.1 = .ok ∧ e.SetsBlock) → Alike ctxs m m' v.2.2 v'.2.2
  set : v.1 = .ok → e.SetsBlock → ∃ p, Alike ctxs p p v.2.2 v'.2.2

/-- Two handlers return alike; after `RES_OK` one more context has been handed back. -/
structure Paired (ctxs : List A.Ucontext) (m m' : Option A.Ptr × A.Ptr) (e : Event A)
    (r r' : RisuResult × State A) : Prop where
  code : r'.1 = r.1
  stopped : r.1 ≠ .ok → Alike ctxs m m' r.2 r'.2 ∧ r'.2.signalPc = r.2.signalPc
  kept : r.1 = .ok → ¬ e.SetsBlock → ∃ uc, Alike (ctxs ++ [uc]) m m' r.2 r'.2
  set : r.1 = .ok → e.SetsBlock → ∃ uc p, Alike (ctxs ++ [uc]) p p r.2 r'.2

namespace Alike

variable {ctxs : List A.Ucontext} {m m' : Option A.Ptr × A.Ptr} {s t : State A}

theorem isSetup (h : Alike ctxs m m' s t) : t.isSetup = s.isSetup := congrArg (·.1) h.1

theorem signalCount (h : Alike ctxs m m' s t) : t.signalCount = s.signalCount :=
  congrArg (·.2.1) h.1

theorem illegalInstructions (h : Alike ctxs m m' s t) :
    t.illegalInstructions = s.illegalInstructions :=
  congrArg (·.2.2.1) h.1

theorem contexts_eq (h : Alike ctxs m m' s t) : t.contexts = s.contexts :=
  congrArg (·.2.2.2) h.1

theorem block_eq (h : Alike ctxs m m' s t) (hm : m = m') : t.block = s.block := by
  rw [h.2.2.1, h.2.2.2, hm]

theorem countSigill (h : Alike ctxs m m' s t) (code : BitVec 32) :
    Alike ctxs m m' (s.countSigill code) (t.countSigill code) := by
  unfold State.countSigill
  split_ifs
  · refine ⟨?_, h.2⟩
    simp only [State.shown, h.isSetup, h.signalCount, h.illegalInstructions, h.contexts_eq]
  · exact h

theorem signal (h : Alike ctxs m m' s t) :
    Alike ctxs m m' { s with signalCount := s.signalCount + 1 }
      { t with signalCount := t.signalCount + 1 } := by
  refine ⟨?_, h.2⟩
  simp only [State.shown, h.isSetup, h.signalCount, h.illegalInstructions, h.contexts_eq]

theorem enterMaster (h : Alike ctxs m m' s t) (e : Event A) :
    Alike ctxs m m' (s.enterMaster e) (t.enterMaster e) :=
  countSigill (s := { s with signalCount := s.signalCount + 1, riMaster := A.reginfoInit e.uc })
    (t := { t with signalCount := t.signalCount + 1, riMaster := A.reginfoInit e.uc }) h.signal _

theorem enterApprentice (h : Alike ctxs m m' s t) (e : Event A) :
    Alike ctxs m m' (s.enterApprentice e) (t.enterApprentice e) :=
  countSigill (s := { s with signalCount := s.signalCount + 1, riApprentice := A.reginfoInit e.uc })
    (t := { t with signalCount := t.signalCount + 1, riApprentice := A.reginfoInit e.uc })
    h.signal _

theorem setSetup (h : Alike ctxs m m' s t) (isSetup : Bool) :
    Alike ctxs m m' { s with isSetup := isSetup } { t with isSetup := isSetup } := by
  refine ⟨?_, h.2⟩
  simp only [State.shown, h.signalCount, h.illegalInstructions, h.contexts_eq]

theorem complete (h : Alike ctxs m m' s t) (op : RisuOp) :
    Alike ctxs m m' (s.complete op) (t.complete op) :=
  h

theorem filled {s' t' : State A} (h : Alike ctxs m m' s t) (hs : Filled s s') (ht : Filled t t') :
    Alike ctxs m m' s' t' := by
  obtain ⟨_, _, _, rfl⟩ := hs
  obtain ⟨_, _, _, rfl⟩ := ht
  exact h

/-- The context is handed back. -/
theorem resume (h : Alike ctxs m m' s t) (uc : A.Ucontext) :
    Alike (ctxs ++ [uc]) m m' { s with contexts := s.contexts ++ [uc] }
      { t with contexts := t.contexts ++ [uc] } := by
  refine ⟨?_, ?_, h.2.2⟩
  · simp only [State.shown, h.isSetup, h.signalCount, h.illegalInstructions, h.contexts_eq]
  · show s.contexts ++ [uc] = ctxs ++ [uc]
    rw [h.2.1]

end Alike

section matched

variable {ctxs : List A.Ucontext} {m m' : Option A.Ptr × A.Ptr} {e : Event A}
  {v v' : RisuResult × A.Ucontext × State A} {s t : State A}

theorem Matched.resume (h : Matched ctxs m m' e v v') :
    Paired ctxs m m' e (Risu.resume e v) (Risu.resume e v') := by
  by_cases hok : v.1 = .ok
  · have hok' : v'.1 = .ok := h.code.trans hok
    rw [Risu.resume, if_pos hok, Risu.resume, if_pos hok', h.context]
    refine ⟨h.code, fun hne => absurd hok hne, ?_, ?_⟩
    · intro _ hset
      exact ⟨_, (h.kept fun hs => hset hs.2).resume _⟩
    · intro _ hset
      obtain ⟨p, hp⟩ := h.set hok hset
      exact ⟨_, p, hp.resume _⟩
  · have hok' : ¬ v'.1 = .ok := fun h' => hok (h.code.symm.trans h')
    rw [Risu.resume, if_neg hok, Risu.resume, if_neg hok']
    refine ⟨h.code, fun _ => ⟨h.kept fun hs => hok hs.1, rfl⟩, ?_, ?_⟩
    · intro hr
      exact absurd hr hok
    · intro hr
      exact absurd hr hok

/-- Ops that do not set the memory block. -/
theorem Matched.of_other (h : Alike ctxs m m' s t) (hset : ¬ e.SetsBlock) (r : RisuResult)
    (uc : A.Ucontext) : Matched ctxs m m' e (r, uc, s) (r, uc, t) :=
  ⟨rfl, rfl, fun _ => h, fun _ hs => absurd hs hset⟩

theorem Matched.of_error (h : Alike ctxs m m' s t) {r : RisuResult} (hr : r ≠ .ok)
    (uc : A.Ucontext) : Matched ctxs m m' e (r, uc, s) (r, uc, t) :=
  ⟨rfl, rfl, fun _ => h, fun hok => absurd hok hr⟩

/-- The memory block is set to the same address. -/
theorem Matched.of_set (hset : e.SetsBlock) (uc : A.Ucontext) {p : Option A.Ptr × A.Ptr}
    (h : Alike ctxs p p s t) : Matched ctxs m m' e (.ok, uc, s) (.ok, uc, t) :=
  ⟨rfl, rfl, fun hs => absurd ⟨rfl, hset⟩ hs, fun _ _ => ⟨p, h⟩⟩

end matched

/-! ### Master -/

theorem relate_writeBuffer (s t : State A) (bs : List Byte) :
    Relate (fun r r' => r = r') (writeBuffer true s bs) (writeBuffer true t bs) :=
  ⟨rfl, fun _ => rfl⟩

section master

variable {ctxs : List A.Ucontext} {m m' : Option A.Ptr × A.Ptr} {s t : State A} {op : RisuOp}
  {e : Event A}

/-- The last `switch` of `send_register_info`, on states that hold the same record. -/
theorem masterFinish_alike (h : Alike ctxs m m' s t) (hri : t.riMaster = s.riMaster)
    (hop : RisuOp.ofCode e.code = some op) (huses : e.UsesBlock → m = m') :
    Matched ctxs m m' e (masterFinish op s e) (masterFinish op t e) := by
  have hother : ∀ {s t : State A}, Alike ctxs m m' s t → op ≠ .setmemblock →
      ∀ uc, Matched ctxs m m' e (.ok, uc, s) (.ok, uc, t) := fun h hne =>
    Matched.of_other h (Event.not_setsBlock hop hne) .ok
  cases op with
  | compare | sigill | comparemem => exact hother (h.complete _) (by decide) e.uc
  | testend => exact Matched.of_error h (by decide) e.uc
  | setmemblock =>
    simp only [masterFinish, hri]
    exact Matched.of_set hop e.uc ⟨h.1, h.2.1, rfl, rfl⟩
  | getmemblock =>
    have harch : t.archMemblock = s.archMemblock :=
      congrArg (·.2) (h.block_eq (huses (.inl hop)))
    simp only [masterFinish, hri, harch]
    exact hother (h.complete _) (by decide) _
  | setupbegin | setupend =>
    exact hother ((h.setSetup _).complete _) (by decide) e.uc

/-- The bytes behind the header are the same. -/
theorem masterExtra_alike (h : Alike ctxs m m' s t) (hri : t.riMaster = s.riMaster)
    (hop : RisuOp.ofCode e.code = some op) (huses : e.UsesBlock → m = m') :
    masterExtra op t e = masterExtra op s e := by
  cases op with
  | compare | testend | sigill => simp only [masterExtra, hri]
  | comparemem =>
    have hblock : t.memblock = s.memblock := congrArg (·.1) (h.block_eq (huses (.inr hop)))
    simp only [masterExtra, hblock]
  | setmemblock | getmemblock | setupbegin | setupend => rfl

theorem sendRecord_alike (h : Alike ctxs m m' s t) (hri : t.riMaster = s.riMaster)
    (hheader : t.header = s.header) (hop : RisuOp.ofCode e.code = some op)
    (huses : e.UsesBlock → m = m') :
    Relate (Matched ctxs m m' e) (sendRecord true op s e) (sendRecord true op t e) := by
  have hfinish := masterFinish_alike h hri hop huses
  unfold sendRecord
  rw [hheader, masterExtra_alike h hri hop huses]
  refine (relate_writeBuffer s t _).bind ?_
  intro res res' hres
  subst hres
  split_ifs with hbad
  · exact Matched.of_error h hbad e.uc
  · cases masterExtra op s e with
    | none => exact hfinish
    | some extra =>
      refine (relate_writeBuffer s t _).bind ?_
      intro res res' hres
      subst hres
      split_ifs with hbad
      · exact Matched.of_error h hbad e.uc
      · exact hfinish

end master

/-- A skipped event is an illegal instruction. -/
theorem Event.Skipped.not_setsBlock {e : Event A} {isSetup : Bool} (h : e.Skipped isSetup) :
    ¬ e.SetsBlock := by
  have hop : RisuOp.ofCode e.code = some .sigill := by rw [h.1, RisuOp.ofCode_code]
  exact Event.not_setsBlock hop (by decide)

/-- **One event of the master.** -/
theorem masterSigill_alike {ctxs : List A.Ucontext} {m m' : Option A.Ptr × A.Ptr} {s t : State A}
    {e : Event A} (h : Alike ctxs m m' s t) (huses : e.UsesBlock → m = m') :
    Relate (Paired ctxs m m' e) (masterSigill true s e) (masterSigill true t e) := by
  have henter := h.enterMaster e
  unfold masterSigill
  cases e.sig with
  | sigbus => exact (Matched.of_error h.signal (by decide) e.uc).resume
  | sigill =>
    refine Relate.bind (Q := Matched ctxs m m' e) ?_ fun v v' hv => hv.resume
    show Relate _ (if e.Skipped (s.enterMaster e).isSetup then _ else _)
      (if e.Skipped (t.enterMaster e).isSetup then _ else _)
    rw [henter.isSetup]
    split_ifs with hskip
    · exact Matched.of_other henter hskip.not_setsBlock .ok e.uc
    · cases hop : RisuOp.ofCode e.code with
      | none => rfl
      | some op =>
        have hrecord : Alike ctxs m m' (masterRecord op (s.enterMaster e) e)
            (masterRecord op (t.enterMaster e) e) := henter
        refine sendRecord_alike hrecord ?_ ?_ hop huses
        · simp [masterRecord]
        · simp [masterRecord]

/-! ### Apprentice -/

/-- Two calls of `recv_register_info` return alike: the same code, and after `RES_OK` the record is
the same in the buffers its op uses. -/
structure Received (s t : State A) (r r' : RisuResult × State A) : Prop where
  code : r'.1 = r.1
  left : Filled s r.2
  right : Filled t r'.2
  header : r.1 = .ok → r'.2.header = r.2.header
  reginfo : ∀ op, r.1 = .ok → RisuOp.ofCode r.2.header.risuOp = some op → op.isRegister = true →
    r'.2.riMaster = r.2.riMaster
  memblock : r.1 = .ok → RisuOp.ofCode r.2.header.risuOp = some .comparemem →
    r'.2.otherMemblock = r.2.otherMemblock

/-- A whole `struct reginfo` replaces whatever was there. -/
theorem Arch.storeReginfo_whole (A : Arch) (r : A.Reginfo) {got : List Byte}
    (hlen : got.length = A.sizeofReginfo) : A.storeReginfo r got = A.reginfoOfBytes got := by
  rw [Arch.storeReginfo]
  rw [List.drop_eq_nil_of_le (by rw [A.reginfoBytes_length, hlen]), List.append_nil]

theorem reginfoReceived_snd (s : State A) (got : RisuResult × List Byte) :
    (reginfoReceived s got).2 =
      { s with riMaster := A.reginfoArchToHost (A.storeReginfo s.riMaster got.2) } := by
  unfold reginfoReceived
  simp only
  split_ifs <;> rfl

theorem reginfoReceived_fst (s : State A) (got : RisuResult × List Byte) :
    (reginfoReceived s got).1 = if got.1 = .ok ∧ s.header.size.toNat ≠ A.sizeofReginfo
      then .badSizeReginfo else got.1 := by
  rw [reginfoReceived]
  simp only [A.reginfoSize_eq]
  split_ifs <;> rfl

theorem relate_readBuffer (s t : State A) (n : ℕ) :
    Relate (fun got got' => got' = got ∧ (got.1 = .ok → got.2.length = n))
      (readBuffer true s n) (readBuffer true t n) := by
  refine ⟨rfl, fun bs => ⟨rfl, ?_⟩⟩
  intro hok
  by_contra hlen
  rw [if_neg hlen] at hok
  cases hok

section receive

variable {s t w x : State A}

theorem Received.of_error (hw : Filled s w) (hx : Filled t x) {r : RisuResult} (hr : r ≠ .ok) :
    Received s t (r, w) (r, x) :=
  ⟨rfl, hw, hx, fun hok => absurd hok hr, fun _ hok => absurd hok hr, fun hok => absurd hok hr⟩

theorem reginfoReceived_alike (hw : Filled s w) (hx : Filled t x) (hheader : x.header = w.header)
    {op : RisuOp} (hop : RisuOp.ofCode w.header.risuOp = some op) (hreg : op.isRegister = true)
    {got : RisuResult × List Byte} (hlen : got.1 = .ok → got.2.length = w.header.size.toNat) :
    Received s t (reginfoReceived w got) (reginfoReceived x got) := by
  refine ⟨?_, hw.reginfoReceived got, hx.reginfoReceived got, ?_, ?_, ?_⟩
  · rw [reginfoReceived_fst, reginfoReceived_fst, hheader]
  · intro _
    rw [reginfoReceived_snd, reginfoReceived_snd]
    exact hheader
  · -- the payload was accepted, so it is as long as a reginfo
    intro _ hok _ _
    rw [reginfoReceived_fst] at hok
    split_ifs at hok with hbad
    have hsize : w.header.size.toNat = A.sizeofReginfo := by
      by_contra hne
      exact hbad ⟨hok, hne⟩
    have hwhole : got.2.length = A.sizeofReginfo := (hlen hok).trans hsize
    rw [reginfoReceived_snd, reginfoReceived_snd]
    show A.reginfoArchToHost _ = A.reginfoArchToHost _
    rw [A.storeReginfo_whole _ hwhole, A.storeReginfo_whole _ hwhole]
  · intro _ hmem
    rw [reginfoReceived_snd] at hmem
    cases hop.symm.trans hmem
    cases hreg

theorem memblockReceived_alike (hw : Filled s w) (hx : Filled t x) (hheader : x.header = w.header)
    (hop : RisuOp.ofCode w.header.risuOp = some .comparemem) {got : RisuResult × List Byte}
    (hlen : got.1 = .ok → got.2.length = memblockLen) :
    Received s t (memblockReceived w got) (memblockReceived x got) := by
  refine ⟨rfl, hw.memblockReceived got, hx.memblockReceived got, fun _ => hheader, ?_, ?_⟩
  · intro op _ hreg
    cases hop.symm.trans hreg
    intro hreg
    cases hreg
  · intro hok _
    refine Subtype.ext ?_
    show (x.otherMemblock.store got.2).1 = (w.otherMemblock.store got.2).1
    rw [Block.store_val _ (hlen hok), Block.store_val _ (hlen hok)]

theorem recvBody_alike (hw : Filled s w) (hx : Filled t x) (hheader : x.header = w.header) :
    Relate (Received s t) (recvBody true w) (recvBody true x) := by
  have herror : ∀ {r : RisuResult}, r ≠ .ok → Received s t (r, w) (r, x) :=
    fun hr => Received.of_error hw hx hr
  unfold recvBody
  rw [hheader]
  by_cases hmagic : w.header.magic ≠ risuMagic
  · rw [if_pos hmagic, if_pos hmagic]
    exact herror (by decide)
  · rw [if_neg hmagic, if_neg hmagic]
    cases hop : RisuOp.ofCode w.header.risuOp with
    | none => exact herror (by decide)
    | some op =>
      cases op with
      | compare | testend | sigill =>
        simp only
        split_ifs
        · exact herror (by decide)
        · unfold recvReginfo
          rw [hheader]
          refine (relate_readBuffer w x _).bind ?_
          intro got got' hgot
          rw [hgot.1]
          exact reginfoReceived_alike hw hx hheader hop rfl hgot.2
      | comparemem =>
        simp only
        split_ifs
        · exact herror (by decide)
        · refine (relate_readBuffer w x _).bind ?_
          intro got got' hgot
          rw [hgot.1]
          exact memblockReceived_alike hw hx hheader hop hgot.2
      | setmemblock | getmemblock | setupbegin | setupend =>
        refine ⟨rfl, hw, hx, fun _ => hheader, ?_, ?_⟩
        · intro op _ hreg
          cases hop.symm.trans hreg
          intro hreg
          cases hreg
        · intro _ hmem
          cases hop.symm.trans hmem

/-- What the buffers held before a record was read into them does not matter. -/
theorem recvRegisterInfo_alike (s t : State A) :
    Relate (Received s t) (recvRegisterInfo true s) (recvRegisterInfo true t) := by
  refine (relate_readBuffer s t _).bind ?_
  intro got got' hgot
  rw [hgot.1]
  unfold headerReceived
  simp only
  split_ifs with hbad
  · exact Received.of_error ((Filled.refl s).setHeader _) ((Filled.refl t).setHeader _) hbad
  · have hlen := hgot.2 (not_not.mp hbad)
    refine recvBody_alike ((Filled.refl s).setHeader _) ((Filled.refl t).setHeader _) ?_
    rw [State.setHeader_header, State.setHeader_header, Header.store_whole _ hlen,
      Header.store_whole _ hlen]

end receive

/-- Both outcomes are deaths of one kind, or both are returns, related by `Q`. -/
def Agrees {α β : Type} (Q : α → β → Prop) : Except Death α → Except Death β → Prop
  | .ok v, .ok v' => Q v v'
  | .error d, .error d' => d = d'
  | _, _ => False

theorem Agrees.cases {α β : Type} {Q : α → β → Prop} {x : Except Death α} {y : Except Death β}
    (h : Agrees Q x y) :
    (∃ v v', x = .ok v ∧ y = .ok v' ∧ Q v v') ∨ ∃ d, x = .error d ∧ y = .error d := by
  cases x with
  | ok v =>
    cases y with
    | ok v' => exact .inl ⟨v, v', rfl, rfl, h⟩
    | error d => exact h.elim
  | error d =>
    cases y with
    | ok v' => exact h.elim
    | error d' =>
      cases h
      exact .inr ⟨d, rfl, rfl⟩

/-- The apprentice's states are alike once a record was received. -/
structure Ready (ctxs : List A.Ucontext) (m m' : Option A.Ptr × A.Ptr) (u w : State A) : Prop where
  alike : Alike ctxs m m' u w
  riApprentice : w.riApprentice = u.riApprentice
  header : w.header = u.header
  reginfo : ∀ op, RisuOp.ofCode u.header.risuOp = some op → op.isRegister = true →
    w.riMaster = u.riMaster
  memblock : RisuOp.ofCode u.header.risuOp = some .comparemem → w.otherMemblock = u.otherMemblock

section compare

variable {ctxs : List A.Ucontext} {m m' : Option A.Ptr × A.Ptr} {s t u w : State A} {e : Event A}
  {op : RisuOp}

theorem Received.ready {r r' : RisuResult × State A} (hr : Received s t r r') (hok : r.1 = .ok)
    (h : Alike ctxs m m' s t) (hri : t.riApprentice = s.riApprentice) :
    Ready ctxs m m' r.2 r'.2 where
  alike := h.filled hr.left hr.right
  riApprentice := by rw [hr.right.riApprentice, hr.left.riApprentice, hri]
  header := hr.header hok
  reginfo := fun op => hr.reginfo op hok
  memblock := hr.memblock hok

theorem registerVerdict_alike (h : Alike ctxs m m' u w) (hheader : w.header = u.header)
    (hri : w.riMaster = u.riMaster) (hset : ¬ e.SetsBlock) :
    Matched ctxs m m' e (registerVerdict op u e) (registerVerdict op w e) := by
  unfold registerVerdict
  rw [hheader, hri]
  split_ifs <;> exact Matched.of_other h hset _ _

/-- The register cases of the `switch`. -/
theorem compareRecord_registers (hreg : op.isRegister = true) (s : State A) (e : Event A) :
    compareRecord op s e =
      if s.header.risuOp ≠ RisuOp.compare.code ∧ s.header.risuOp ≠ RisuOp.testend.code ∧
          s.header.risuOp ≠ RisuOp.sigill.code then .ok (.mismatchOp, e.uc, s)
      else if s.isSetup then .ok (registerVerdict op s e)
      else (A.reginfoIsEq s.signalCount s.riMaster s.riApprentice).elim (.error .fpe) fun r =>
        .ok (if r.1 then registerVerdict op { s with riApprentice := r.2 } e
          else (.mismatchReg, e.uc, { s with riApprentice := r.2 })) := by
  cases op with
  | compare | testend | sigill =>
    unfold compareRecord
    simp only
    split_ifs with hhead hsetup
    · rfl
    · rfl
    · cases A.reginfoIsEq s.signalCount s.riMaster s.riApprentice with
      | none => rfl
      | some r =>
        obtain ⟨eq, a⟩ := r
        cases eq <;> rfl
  | setmemblock | getmemblock | comparemem | setupbegin | setupend => cases hreg

theorem compareRegisters_alike (h : Ready ctxs m m' u w) (hreg : op.isRegister = true)
    (hop : RisuOp.ofCode e.code = some op) :
    Agrees (Matched ctxs m m' e) (compareRecord op u e) (compareRecord op w e) := by
  have hset : ¬ e.SetsBlock := Event.not_setsBlock hop (by
    intro hop
    rw [hop] at hreg
    cases hreg)
  rw [compareRecord_registers hreg, compareRecord_registers hreg]
  by_cases hhead : u.header.risuOp ≠ RisuOp.compare.code ∧ u.header.risuOp ≠ RisuOp.testend.code ∧
      u.header.risuOp ≠ RisuOp.sigill.code
  · rw [if_pos hhead, if_pos (h.header.symm ▸ hhead)]
    exact Matched.of_other h.alike hset _ _
  · have hhead' : ¬ (w.header.risuOp ≠ RisuOp.compare.code ∧
        w.header.risuOp ≠ RisuOp.testend.code ∧ w.header.risuOp ≠ RisuOp.sigill.code) := by
      rw [h.header]
      exact hhead
    have hri : w.riMaster = u.riMaster := by
      by_contra hne
      refine hhead ⟨?_, ?_, ?_⟩
      · intro hc
        exact hne (h.reginfo .compare (by rw [hc, RisuOp.ofCode_code]) rfl)
      · intro hc
        exact hne (h.reginfo .testend (by rw [hc, RisuOp.ofCode_code]) rfl)
      · intro hc
        exact hne (h.reginfo .sigill (by rw [hc, RisuOp.ofCode_code]) rfl)
    have hisEq : A.reginfoIsEq w.signalCount w.riMaster w.riApprentice =
        A.reginfoIsEq u.signalCount u.riMaster u.riApprentice := by
      rw [h.alike.signalCount, hri, h.riApprentice]
    have hsetups : w.isSetup = u.isSetup := h.alike.isSetup
    rw [if_neg hhead, if_neg hhead', hisEq]
    by_cases hsetup : u.isSetup
    · rw [if_pos hsetup, if_pos (hsetups.trans hsetup)]
      exact registerVerdict_alike h.alike h.header hri hset
    · rw [if_neg hsetup, if_neg (hsetups ▸ hsetup)]
      cases A.reginfoIsEq u.signalCount u.riMaster u.riApprentice with
      | none => rfl
      | some r =>
        obtain ⟨eq, a⟩ := r
        cases eq with
        | false =>
          exact Matched.of_other (s := { u with riApprentice := a })
            (t := { w with riApprentice := a }) h.alike hset _ _
        | true =>
          exact registerVerdict_alike (u := { u with riApprentice := a })
            (w := { w with riApprentice := a }) h.alike h.header hri hset

theorem compareRecord_alike (h : Ready ctxs m m' u w) (hop : RisuOp.ofCode e.code = some op)
    (huses : e.UsesBlock → m = m') :
    Agrees (Matched ctxs m m' e) (compareRecord op u e) (compareRecord op w e) := by
  have hmismatch : Matched ctxs m m' e (.mismatchOp, e.uc, u) (.mismatchOp, e.uc, w) :=
    Matched.of_error h.alike (by decide) e.uc
  have hheader : w.header.risuOp = u.header.risuOp := by rw [h.header]
  cases op with
  | compare | testend | sigill => exact compareRegisters_alike h rfl hop
  | setmemblock =>
    simp only [compareRecord, hheader, h.riApprentice]
    split_ifs
    · exact hmismatch
    · exact Matched.of_set hop e.uc ⟨h.alike.1, h.alike.2.1, rfl, rfl⟩
  | getmemblock =>
    have harch : w.archMemblock = u.archMemblock :=
      congrArg (·.2) (h.alike.block_eq (huses (.inl hop)))
    simp only [compareRecord, hheader, h.riApprentice, harch]
    split_ifs
    · exact hmismatch
    · exact Matched.of_other h.alike (Event.not_setsBlock hop (by decide)) _ _
  | comparemem =>
    have hblock : w.memblock = u.memblock :=
      congrArg (·.1) (h.alike.block_eq (huses (.inr hop)))
    simp only [compareRecord, hheader, hblock]
    split_ifs with hne
    · exact hmismatch
    · have hother : w.otherMemblock = u.otherMemblock :=
        h.memblock (by rw [← not_not.mp hne, RisuOp.ofCode_code])
      cases u.memblock with
      | none => rfl
      | some p =>
        show Agrees _ (if e.block p ≠ u.otherMemblock.1 then _ else _)
          (if e.block p ≠ w.otherMemblock.1 then _ else _)
        rw [hother]
        generalize e.block p = bs
        split_ifs
        · exact Matched.of_error h.alike (by decide) _
        · exact Matched.of_other h.alike (Event.not_setsBlock hop (by decide)) _ _
  | setupbegin | setupend =>
    simp only [compareRecord, hheader]
    split_ifs
    · exact hmismatch
    · exact Matched.of_other (h.alike.setSetup _) (Event.not_setsBlock hop (by decide)) _ _

theorem Matched.noteCompleted {v v' : RisuResult × A.Ucontext × State A}
    (h : Matched ctxs m m' e v v') (op : RisuOp) :
    Matched ctxs m m' e (Risu.noteCompleted op v) (Risu.noteCompleted op v') := by
  unfold Risu.noteCompleted
  rw [h.code]
  split_ifs with hok
  · exact ⟨rfl, h.context, h.kept, h.set⟩
  · exact h

theorem verdict_alike (h : Ready ctxs m m' u w) (huses : e.UsesBlock → m = m') :
    Agrees (Matched ctxs m m' e) (verdict e u) (verdict e w) := by
  unfold verdict
  cases hop : RisuOp.ofCode e.code with
  | none => rfl
  | some op =>
    obtain ⟨v, v', hu, hw, hv⟩ | ⟨d, hu, hw⟩ := (compareRecord_alike h hop huses).cases
    · simp only [hu, hw]
      exact hv.noteCompleted op
    · simp only [hu, hw]
      rfl

theorem judgeRecord_alike {r r' : RisuResult × State A} (hr : Received s t r r')
    (h : Alike ctxs m m' s t) (hri : t.riApprentice = s.riApprentice)
    (huses : e.UsesBlock → m = m') :
    Relate (Matched ctxs m m' e) (judgeRecord true e r) (judgeRecord true e r') := by
  unfold judgeRecord
  rw [hr.code]
  split_ifs with hbad
  · exact Matched.of_error (h.filled hr.left hr.right) hbad e.uc
  · obtain ⟨v, v', hu, hw, hv⟩ | ⟨d, hu, hw⟩ :=
      (verdict_alike (hr.ready (not_not.mp hbad) h hri) huses).cases
    · rw [hu, hw]
      exact hv
    · rw [hu, hw]
      rfl

/-- **One event of the apprentice.** -/
theorem apprenticeSigill_alike (h : Alike ctxs m m' s t) (huses : e.UsesBlock → m = m') :
    Relate (Paired ctxs m m' e) (apprenticeSigill true s e) (apprenticeSigill true t e) := by
  have henter := h.enterApprentice e
  unfold apprenticeSigill
  cases e.sig with
  | sigbus => exact (Matched.of_error h.signal (by decide) e.uc).resume
  | sigill =>
    refine Relate.bind (Q := Matched ctxs m m' e) ?_ fun v v' hv => hv.resume
    show Relate _ (if e.Skipped (s.enterApprentice e).isSetup then _ else _)
      (if e.Skipped (t.enterApprentice e).isSetup then _ else _)
    rw [henter.isSetup]
    split_ifs with hskip
    · exact Matched.of_other henter hskip.not_setsBlock .ok e.uc
    · refine (recvRegisterInfo_alike _ _).bind ?_
      intro r r' hr
      refine judgeRecord_alike hr henter ?_ huses
      rw [countSigill_riApprentice, countSigill_riApprentice]

end compare

/-! ### Whole runs -/

/-- An image as the handlers meet it: the contexts handed back so far decide at which event it stops
next; `none` if it returns. -/
def Image (A : Arch) := List A.Ucontext → Option (Event A)

/-- The op an image asks for at a stop. -/
def Image.asks (img : Image A) (ctxs : List A.Ucontext) : Option RisuOp :=
  (img ctxs).bind fun e => RisuOp.ofCode e.code

/-- `do_image` under a handler for at most the given number of signals, with `none` for an image
that still runs. -/
def imageRun (handler : State A → Event A → Handler A (RisuResult × State A)) (img : Image A) :
    ℕ → State A → Handler A (Option Leave × State A)
  | 0, s => .ret (none, s)
  | n + 1, s =>
    match img s.contexts with
    | none => .ret (some .returned, s)
    | some e => do
      let r ← handler s e
      if r.1 = .ok then imageRun handler img n r.2 else return (some (.jump r.1), r.2)

/-- Wherever the memory block is asked for or compared, it has been set before. -/
def SetsBlockFirst {κ : Type} (asks : List κ → Option RisuOp) : Prop :=
  ∀ ctxs, asks ctxs = some .getmemblock ∨ asks ctxs = some .comparemem →
    ∃ k < ctxs.length, asks (ctxs.take k) = some .setmemblock

def NeverSetsBlock {κ : Type} (asks : List κ → Option RisuOp) : Prop :=
  ∀ ctxs, asks ctxs ≠ some .setmemblock

/-- Two runs of an image end alike.  The last field is about the first run alone. -/
structure Ended (asks : List A.Ucontext → Option RisuOp) (m : Option A.Ptr × A.Ptr)
    (r r' : Option Leave × State A) : Prop where
  leave : r'.1 = r.1
  signalCount : r'.2.signalCount = r.2.signalCount
  illegalInstructions : r'.2.illegalInstructions = r.2.illegalInstructions
  signalPc : ∀ res, r.1 = some (.jump res) → r'.2.signalPc = r.2.signalPc
  block : NeverSetsBlock asks → r.2.block = m

/-- The handler does the same from states that are alike. -/
def StepAlike (handler : State A → Event A → Handler A (RisuResult × State A)) : Prop :=
  ∀ {ctxs m m'} {s t : State A} {e : Event A}, Alike ctxs m m' s t → (e.UsesBlock → m = m') →
    Relate (Paired ctxs m m' e) (handler s e) (handler t e)

section runs

variable {handler : State A → Event A → Handler A (RisuResult × State A)}
  {asks : List A.Ucontext → Option RisuOp} {ctxs : List A.Ucontext}
  {m m' : Option A.Ptr × A.Ptr} {s t : State A}

/-- The memory blocks are the same, or the image has not set its own yet but will before it asks. -/
def Covered (asks : List A.Ucontext → Option RisuOp) (ctxs : List A.Ucontext)
    (m m' : Option A.Ptr × A.Ptr) : Prop :=
  m = m' ∨ SetsBlockFirst asks ∧ ∀ k < ctxs.length, asks (ctxs.take k) ≠ some .setmemblock

theorem Covered.uses (h : Covered asks ctxs m m')
    (huse : asks ctxs = some .getmemblock ∨ asks ctxs = some .comparemem) : m = m' := by
  obtain h | ⟨hfirst, hnot⟩ := h
  · exact h
  · obtain ⟨k, hk, hset⟩ := hfirst ctxs huse
    exact absurd hset (hnot k hk)

theorem Covered.next (h : Covered asks ctxs m m') (hset : asks ctxs ≠ some .setmemblock)
    (uc : A.Ucontext) : Covered asks (ctxs ++ [uc]) m m' := by
  obtain h | ⟨hfirst, hnot⟩ := h
  · exact .inl h
  · refine .inr ⟨hfirst, ?_⟩
    intro k hk
    rw [List.length_append, List.length_singleton] at hk
    rw [List.take_append_of_le_length (by omega)]
    obtain hlt | rfl : k < ctxs.length ∨ k = ctxs.length := by omega
    · exact hnot k hlt
    · rw [List.take_length]
      exact hset

theorem Alike.ended (h : Alike ctxs m m' s t) (leave : Option Leave)
    (hpc : ∀ res, leave = some (.jump res) → t.signalPc = s.signalPc) :
    Ended asks m (leave, s) (leave, t) :=
  ⟨rfl, h.signalCount, h.illegalInstructions, hpc, fun _ => h.2.2.1⟩

/-- **What an earlier run left in the variables does not show in a later one**, the memory block
apart. -/
theorem imageRun_alike (hstep : StepAlike handler) (img : Image A) (n : ℕ)
    (h : Alike ctxs m m' s t) (hcov : Covered img.asks ctxs m m') :
    Relate (Ended img.asks m) (imageRun handler img n s) (imageRun handler img n t) := by
  induction n generalizing ctxs m m' s t with
  | zero => exact h.ended _ nofun
  | succ n ih =>
    have hs : s.contexts = ctxs := h.2.1
    have ht : t.contexts = ctxs := h.contexts_eq.trans hs
    unfold imageRun
    rw [hs, ht]
    cases himg : img ctxs with
    | none => exact h.ended _ nofun
    | some e =>
      have hasks : img.asks ctxs = RisuOp.ofCode e.code := by rw [Image.asks, himg]; rfl
      have huses : e.UsesBlock → m = m' := fun huse => hcov.uses (hasks ▸ huse)
      refine (hstep h huses).bind ?_
      intro r r' hr
      rw [hr.code]
      split_ifs with hok
      · by_cases hset : e.SetsBlock
        · obtain ⟨uc, p, hp⟩ := hr.set hok hset
          have hended := ih hp (.inl rfl)
          exact hended.mono fun a b hab => ⟨hab.leave, hab.signalCount, hab.illegalInstructions,
            hab.signalPc, fun hnever => absurd (hasks.trans hset) (hnever ctxs)⟩
        · obtain ⟨uc, hkept⟩ := hr.kept hok hset
          exact ih hkept (hcov.next (fun hs => hset (hasks.symm.trans hs)) uc)
      · obtain ⟨halike, hpc⟩ := hr.stopped hok
        exact halike.ended _ fun _ _ => hpc

end runs

/-! ### Images with given events -/

/-- The image that stops at the given events, whatever is handed back to it. -/
def Image.ofEvents (es : List (Event A)) : Image A := fun ctxs => es[ctxs.length]?

section events

variable {handler : State A → Event A → Handler A (RisuResult × State A)}

/-- A handler that returns `RES_OK` has handed back one context. -/
theorem StepAlike.contexts (hstep : StepAlike handler) (s : State A) (e : Event A) :
    (handler s e).Everywhere (fun _ => True) fun r =>
      r.1 = .ok → r.2.contexts.length = s.contexts.length + 1 := by
  have hself : Alike s.contexts s.block s.block s s := ⟨rfl, rfl, rfl, rfl⟩
  refine (hstep (e := e) hself fun _ => rfl).everywhere.mono (fun _ => id) ?_
  intro r hr hok
  obtain ⟨r', hr⟩ := hr
  by_cases hset : e.SetsBlock
  · obtain ⟨uc, p, hp⟩ := hr.set hok hset
    rw [hp.2.1, List.length_append, List.length_singleton]
  · obtain ⟨uc, hp⟩ := hr.kept hok hset
    rw [hp.2.1, List.length_append, List.length_singleton]

/-- A loop over the events of an image is a run of the image. -/
theorem imageRun_loop (hstep : StepAlike handler)
    {loop : List (Event A) → State A → Handler A (Leave × State A)}
    (hnil : ∀ s, loop [] s = .ret (.returned, s))
    (hcons : ∀ e es s, loop (e :: es) s = handler s e >>= fun r =>
      if r.1 = .ok then loop es r.2 else .ret (.jump r.1, r.2))
    (all es : List (Event A)) (s : State A) (hes : all.drop s.contexts.length = es) :
    imageRun handler (.ofEvents all) (es.length + 1) s =
      loop es s >>= fun r => .ret (some r.1, r.2) := by
  have hnext : Image.ofEvents all s.contexts = es.head? := by
    rw [← hes, List.head?_drop]
    rfl
  induction es generalizing s with
  | nil =>
    rw [imageRun, hnext, hnil]
    rfl
  | cons e es ih =>
    rw [imageRun, hnext, hcons, bind_assoc]
    refine (hstep.contexts s e).bind_congr ?_
    intro r hr
    split_ifs with hok
    · have hrest : all.drop r.2.contexts.length = es := by
        rw [hr hok, ← List.drop_drop, hes]
        rfl
      refine ih r.2 hrest ?_
      rw [← hrest, List.head?_drop]
      rfl
    · rfl

end events

/-- **The two models of a run agree.**  Under given events, the runs of an image are the loops
`master` and `apprentice`. -/
theorem imageRun_events (es : List (Event A)) (s : State A) (hs : s.contexts = []) :
    imageRun (masterSigill true) (.ofEvents es) (es.length + 1) s =
        (master true es s >>= fun r => .ret (some r.1, r.2)) ∧
      imageRun (apprenticeSigill true) (.ofEvents es) (es.length + 1) s =
        (apprentice true es s >>= fun r => .ret (some r.1, r.2)) := by
  have hes : es.drop s.contexts.length = es := by
    rw [hs]
    rfl
  refine ⟨?_, ?_⟩
  · exact imageRun_loop masterSigill_alike (fun _ => rfl) (fun _ _ _ => rfl) es es s hes
  · exact imageRun_loop apprenticeSigill_alike (fun _ => rfl) (fun _ _ _ => rfl) es es s hes

end Risu
