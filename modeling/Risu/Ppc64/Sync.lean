import Risu.Accept
import Risu.Ppc64.Accepted

/-!
# The pc in the record header

`send_register_info` sends the pc in every header "to keep in sync", and nothing on the receiving
side reads it; `reginfo_is_eq` compares `LNK - NIP` and not `NIP`.

* `Place`, `InStep` — the op, the setup state, `NIP` and `LNK` of a side, and what must hold between
  the two sides;
* `Alike` — sides that differ in `NIP` and `LNK` only;
* `pc_sync_iff` — between which places of a native build an accepted record is at the same pc,
  whatever the other registers and the memory, and the same for a record between sides that are alike;
* `pc_out_of_sync` — a pair of equal registers at two places of the image.
-/

namespace Risu.Ppc64

open Lib Lib.Process

/-- In a native build the pc of a header is the image-relative pc of the record. -/
theorem getPc_native {b : Build} (hb : b.dppc = false) (uc : Ucontext b.width)
    (ri : Reginfo b.width 0) : b.getPc uc ri = ri.nip.setWidth b.width := by
  simp [Build.getPc, hb]

/-- A pointer has room for the image-relative pc. -/
theorem setWidth_inj (b : Build) {x y : BitVec 32} :
    x.setWidth b.width = y.setWidth b.width ↔ x = y := by
  refine ⟨fun h => ?_, congrArg _⟩
  have hw : 2 ^ 32 ≤ 2 ^ b.width := by
    rcases b.ptrBytes_eq with h | h <;> simp [Build.width, h]
  have htoNat := congrArg BitVec.toNat h
  simp only [BitVec.toNat_setWidth] at htoNat
  rw [Nat.mod_eq_of_lt (by omega), Nat.mod_eq_of_lt (by omega)] at htoNat
  exact BitVec.eq_of_toNat_eq htoNat

/-- The pc in a record is the apprentice's pc exactly when the image-relative pcs are equal. -/
theorem record_pc_iff {b : Build} (hb : b.dppc = false) {m : Site (port b)} {r : Record (port b)}
    (hr : m.record = some r) (f : Event (port b)) :
    r.pc = b.getPc f.uc (b.reginfoInit f.uc) ↔
      (b.reginfoInit m.event.uc).nip = (b.reginfoInit f.uc).nip := by
  obtain ⟨op, -, rfl⟩ := Option.map_eq_some_iff.mp hr
  rw [← setWidth_inj b, ← getPc_native hb f.uc (b.reginfoInit f.uc),
    ← getPc_native hb m.event.uc (b.reginfoInit m.event.uc)]
  rfl

/-! ### When an accepted record is one from the same pc -/

section place

variable {b : Build}

/-- What of a side decides the question: its op, whether it is in setup, `NIP` and `LNK`. -/
structure Place (b : Build) where
  op : Option RisuOp
  isSetup : Bool
  nip : BitVec b.width
  lnk : BitVec b.width

def place (c : Site (port b)) : Place b :=
  ⟨c.op, c.isSetup, c.event.uc.gregs risuNip, c.event.uc.gregs risuLnk⟩

/-- The image-relative pc. -/
def Place.offset (p : Place b) : BitVec 32 := (p.nip - b.startAddress).setWidth 32

/-- A record sent at `p` cannot be accepted at another pc by an apprentice at `q`. -/
def InStep (p q : Place b) : Prop :=
  p.offset = q.offset ∨
    ¬ (q.op = some .sigill ∧ q.isSetup = true) ∧
      (q.op = some .testend ∨ p.op ≠ q.op ∨
        q.op.any RisuOp.isRegister = true ∧ q.isSetup = false ∧ p.lnk - p.nip ≠ q.lnk - q.nip)

/-- The apprentice's side when `recv_and_compare_register_info` is called. -/
def arrival (s : State (port b)) (f : Event (port b)) : Site (port b) :=
  ⟨f, s.isSetup, s.memblock, s.signalCount⟩

/-- The call returns `RES_OK`, with the record in front of it. -/
def ReturnsOk (trace : Bool) (r : Record (port b)) (s : State (port b)) (f : Event (port b))
    (rest : List Byte) : Prop :=
  ∃ uc st, (fileRun (recvAndCompareRegisterInfo trace s f) (r.wire trace ++ rest)).last =
    .ret (.ok, uc, st)

/-- The record carries the apprentice's pc. -/
def AtPc (r : Record (port b)) (f : Event (port b)) : Prop :=
  r.pc = b.getPc f.uc (b.reginfoInit f.uc)

/-- Whatever the other registers, the memory and the transport: a record sent at `p` for which an
apprentice at `q` returns `RES_OK` carries the apprentice's pc. -/
def PcSync (p q : Place b) : Prop :=
  ∀ (trace : Bool) (m : Site (port b)) (r : Record (port b)) (s : State (port b))
    (f : Event (port b)) (rest : List Byte),
    place m = p → place (arrival s f) = q → m.record = some r → ¬ m.Missing →
    ReturnsOk trace r s f rest → AtPc r f

/-- Apart from `NIP` and `LNK` the sides have the same registers, and one block to compare. -/
structure Alike (m a : Site (port b)) : Prop where
  gregs : ∀ j, j ≠ risuNip → j ≠ risuLnk → m.event.uc.gregs j = a.event.uc.gregs j
  fpregs : m.event.uc.fpregs = a.event.uc.fpregs
  fpscr : m.event.uc.fpscr = a.event.uc.fpscr
  block : a.op = some .comparemem → a.block.isSome = true ∧ m.block = a.block

theorem skipped_iff (c : Site (port b)) :
    c.event.Skipped c.isSetup ↔ c.op = some .sigill ∧ c.isSetup = true := by
  rw [Event.Skipped, Site.op, RisuOp.ofCode_eq_some]

/-- A pair that agrees, in step, is at one pc. -/
theorem offset_eq_of_passes {m a : Site (port b)} (h : Passes m a) (htest : a.op ≠ some .testend)
    (hstep : InStep (place m) (place a)) : (place m).offset = (place a).offset := by
  obtain ⟨hop, hregs, -⟩ := h
  rcases hstep with hoff | ⟨-, htest' | hne | ⟨hregister, hsetup, hlnk⟩⟩
  · exact hoff
  · exact absurd htest' htest
  · exact absurd hop hne
  · obtain ⟨⟨eq, a'⟩, heq, rfl⟩ := Option.map_eq_some_iff.mp (hregs hregister hsetup)
    exact absurd (scan_accepted (reginfoIsEq_true.mp heq)).lnk hlnk

/-- Contexts that differ in `NIP` and `LNK` only, with one `LNK - NIP`, hold the same values in every
register that is compared. -/
theorem Alike.sameRegisters {m a : Site (port b)} (h : Alike m a)
    (hlnk : (place m).lnk - (place m).nip = (place a).lnk - (place a).nip) :
    SameRegisters (b.reginfoInit m.event.uc) (b.reginfoInit a.event.uc) := by
  refine ⟨fun i => h.gregs _ ?_ ?_, h.gregs risuXer (by decide) (by decide), hlnk,
    h.gregs risuCtr (by decide) (by decide), h.gregs risuCcr (by decide) (by decide),
    h.gregs risuMq (by decide) (by decide), h.fpscr, h.fpregs, rfl⟩
  · exact fun h => absurd (congrArg Fin.val h) (by simp [gprIndex, risuNip]; omega)
  · exact fun h => absurd (congrArg Fin.val h) (by simp [gprIndex, risuLnk]; omega)

/-- Sides that are alike agree if they have one op and, where registers are compared, one
`LNK - NIP`. -/
theorem Alike.passes {m a : Site (port b)} (h : Alike m a) (hop : m.op = a.op)
    (hlnk : a.isRegister = true → a.isSetup = false →
      (place m).lnk - (place m).nip = (place a).lnk - (place a).nip) : Passes m a := by
  refine ⟨hop, fun hregister hsetup => ?_, h.block⟩
  have hcmp : (port b).reginfoIsEq a.signalCount (b.reginfoInit m.event.uc)
      (b.reginfoInit a.event.uc) = some (true, b.reginfoInit a.event.uc) :=
    reginfoIsEq_of_same b.options _ (h.sameRegisters (hlnk hregister hsetup))
  exact congrArg (Option.map Prod.fst) hcmp

section one

variable {m : Site (port b)} {r : Record (port b)}

/-- In step, an accepted record carries the apprentice's pc. -/
theorem atPc_of_inStep (hb : b.dppc = false) (hr : m.record = some r) (hm : ¬ m.Missing) {trace : Bool}
    {s : State (port b)} {f : Event (port b)} {rest : List Byte}
    (hstep : InStep (place m) (place (arrival s f))) (hok : ReturnsOk trace r s f rest) : AtPc r f := by
  refine (record_pc_iff hb hr f).mpr ?_
  rcases (recvAndCompare_ok_iff trace hr hm s f rest).mp hok with hskip | ⟨htest, hpass⟩
  · rcases hstep with hoff | ⟨hkept, -⟩
    · exact hoff
    · exact absurd ((skipped_iff (arrival s f)).mp hskip) hkept
  · exact offset_eq_of_passes hpass htest hstep

/-- Out of step, a record between sides that are alike is accepted, and carries another pc. -/
theorem Alike.out_of_step (hb : b.dppc = false) (hr : m.record = some r) (hm : ¬ m.Missing)
    {s : State (port b)} {f : Event (port b)} (halike : Alike m (arrival s f))
    (hstep : ¬ InStep (place m) (place (arrival s f))) (trace : Bool) (rest : List Byte) :
    ReturnsOk trace r s f rest ∧ ¬ AtPc r f := by
  rw [InStep, not_or, not_and] at hstep
  obtain ⟨hoff, hstep⟩ := hstep
  refine ⟨(recvAndCompare_ok_iff trace hr hm s f rest).mpr ?_,
    fun hpc => hoff ((record_pc_iff hb hr f).mp hpc)⟩
  by_cases hskip : f.Skipped s.isSetup
  · exact .inl hskip
  · have hrest := hstep fun hsigill => hskip ((skipped_iff (arrival s f)).mpr hsigill)
    simp only [not_or, not_and, not_not] at hrest
    obtain ⟨htest, hop, hlnk⟩ := hrest
    exact .inr ⟨htest, halike.passes hop hlnk⟩

end one

/-- The same place with every other register 0, and a block of zeros. -/
def bare (c : Site (port b)) : Site (port b) where
  event :=
    { sig := .sigill
      uc :=
        { gregs := fun j => if j = risuNip ∨ j = risuLnk then c.event.uc.gregs j else 0
          fpregs := fun _ => 0
          fpscr := 0
          word := c.event.uc.word }
      mem := fun _ _ => 0
      behindRi := fun _ => 0 }
  isSetup := c.isSetup
  memblock := some 0
  signalCount := 0

theorem alike_bare (m a : Site (port b)) : Alike (bare m) (bare a) where
  gregs := fun j hn hl => by simp [bare, hn, hl]
  fpregs := rfl
  fpscr := rfl
  block := fun _ => ⟨rfl, rfl⟩

theorem bare_op (c : Site (port b)) : (bare c).op = c.op := by
  have hnip : (bare c).event.uc.gregs risuNip = c.event.uc.gregs risuNip := by simp [bare]
  have hword : (b.reginfoInit (bare c).event.uc).faultingInsn =
      (b.reginfoInit c.event.uc).faultingInsn := by
    show b.insnAt (bare c).event.uc ((bare c).event.uc.gregs risuNip + 0) =
      b.insnAt c.event.uc (c.event.uc.gregs risuNip + 0)
    rw [hnip]
    rfl
  show RisuOp.ofCode (getRisuop (b.reginfoInit (bare c).event.uc)) =
    RisuOp.ofCode (getRisuop (b.reginfoInit c.event.uc))
  simp only [getRisuop, hword]

theorem place_bare (c : Site (port b)) : place (bare c) = place c := by
  rw [place, bare_op, place]
  simp [bare]

/-- **When an accepted record is one from the same pc.**  In a native build, for any record and any
event of the apprentice: every record accepted between these two places carries the apprentice's pc
if and only if the image-relative pcs are equal, or the event is not passed over during setup and it
ends the test, or asks for another op than the master's, or carries registers outside setup with
another `LNK - NIP`.  Where the sides are alike but for the place, it is so of this record. -/
theorem pc_sync_iff (hb : b.dppc = false) (trace : Bool) {m : Site (port b)} {r : Record (port b)}
    (hr : m.record = some r) (hm : ¬ m.Missing) (s : State (port b)) (f : Event (port b))
    (rest : List Byte) :
    (PcSync (place m) (place (arrival s f)) ↔ InStep (place m) (place (arrival s f))) ∧
      (Alike m (arrival s f) →
        ((ReturnsOk trace r s f rest → AtPc r f) ↔ InStep (place m) (place (arrival s f)))) := by
  refine ⟨⟨fun h => ?_, ?_⟩, fun halike => ⟨fun h => ?_, fun hstep => atPc_of_inStep hb hr hm hstep⟩⟩
  · by_contra hstep
    -- the sides with every other register 0 are at the same places
    obtain ⟨op, hop, -⟩ := Option.map_eq_some_iff.mp hr
    obtain ⟨r', hr'⟩ : ∃ r', (bare m).record = some r' := by
      simp [Site.record, bare_op, hop]
    have hm' : ¬ (bare m).Missing := fun hmissing => Option.some_ne_none _ hmissing.2
    let s' : State (port b) :=
      { State.start (port b) with isSetup := s.isSetup, memblock := some 0, signalCount := 0 }
    have hm_place : place (bare m) = place m := place_bare m
    have ha_place : place (arrival s' (bare (arrival s f)).event) = place (arrival s f) :=
      place_bare (arrival s f)
    rw [← hm_place, ← ha_place] at hstep
    have halike : Alike (bare m) (arrival s' (bare (arrival s f)).event) :=
      alike_bare m (arrival s f)
    obtain ⟨hok, hpc⟩ := halike.out_of_step hb hr' hm' hstep true []
    exact hpc (h true (bare m) r' s' (bare (arrival s f)).event [] hm_place ha_place hr' hm' hok)
  · rintro hstep trace m' r' s' f' rest hm_place ha_place hr' hm' hok
    rw [← hm_place, ← ha_place] at hstep
    exact atPc_of_inStep hb hr' hm' hstep hok
  · by_contra hstep
    obtain ⟨hok, hpc⟩ := halike.out_of_step hb hr hm hstep trace rest
    exact hpc (h hok)

end place

/-- A `COMPARE` of the master at the start of the image. -/
def compareAtStart : Site (port native32) := ⟨request .compare, false, none, 1⟩

theorem compareAtStart_record : (∃ r, compareAtStart.record = some r) ∧ ¬ compareAtStart.Missing := by
  have hop : compareAtStart.op = some .compare := request_op _
  exact ⟨by simp [Site.record, hop], by simp [Site.Missing, hop]⟩

/-- The image stopped 4 bytes further on, with the link register moved by `d`. -/
def further (d : BitVec native32.width) (e : Event (port native32)) : Event (port native32) :=
  { e with
    uc := { e.uc with
      gregs := fun j =>
        if j = risuNip then e.uc.gregs j + 4
        else if j = risuLnk then e.uc.gregs j + d
        else e.uc.gregs j } }

theorem further_gregs (d : BitVec native32.width) (e : Event (port native32)) {j : Fin 41} (hn : j ≠ risuNip)
    (hl : j ≠ risuLnk) : (further d e).uc.gregs j = e.uc.gregs j :=
  (if_neg hn).trans (if_neg hl)

theorem further_nip (d : BitVec native32.width) (e : Event (port native32)) :
    (further d e).uc.gregs risuNip = e.uc.gregs risuNip + 4 := by
  simp [further]

theorem further_lnk (d : BitVec native32.width) (e : Event (port native32)) :
    (further d e).uc.gregs risuLnk = e.uc.gregs risuLnk + d := by
  have hne : risuLnk ≠ risuNip := by decide
  simp [further, hne]

theorem further_code (d : BitVec native32.width) (op : RisuOp) :
    (further d (request op)).code = (request op).code := by
  have hin : native32.startAddress ≤ native32.startAddress + 4 + 0 ∧ native32.startAddress + 4 + 0 <
      native32.startAddress + BitVec.ofNat _ native32.imageSize := by decide
  have hin' : native32.startAddress ≤ native32.startAddress + 0 ∧ native32.startAddress + 0 <
      native32.startAddress + BitVec.ofNat _ native32.imageSize := by decide
  have hword : (native32.reginfoInit (further d (request op)).uc).faultingInsn =
      (native32.reginfoInit (request op).uc).faultingInsn :=
    (if_pos (e := native32.archToHost32 0) hin).trans
      (if_pos (e := native32.archToHost32 0) hin').symm
  show getRisuop (native32.reginfoInit (further d (request op)).uc) =
    getRisuop (native32.reginfoInit (request op).uc)
  simp only [getRisuop, hword]

/-- An apprentice that stops there outside setup. -/
def arrivalFurther (d : BitVec native32.width) : Site (port native32) :=
  arrival (.start _) (further d (request .compare))

theorem arrivalFurther_op (d : BitVec native32.width) : (arrivalFurther d).op = some .compare := by
  show RisuOp.ofCode (further d (request .compare)).code = some .compare
  rw [further_code, request_op]

theorem alike_further (d : BitVec native32.width) : Alike compareAtStart (arrivalFurther d) where
  gregs := fun _ hn hl => (further_gregs d _ hn hl).symm
  fpregs := rfl
  fpscr := rfl
  block := fun hmem => by cases (arrivalFurther_op d).symm.trans hmem

/-- In step, unless the link register has moved with the pc. -/
theorem inStep_further_iff (d : BitVec native32.width) :
    InStep (place compareAtStart) (place (arrivalFurther d)) ↔ d ≠ 4 := by
  have hm : place compareAtStart =
      ⟨some .compare, false, native32.startAddress, native32.startAddress⟩ := by
    rw [place, show compareAtStart.op = some .compare from request_op _]
    rfl
  have ha : place (arrivalFurther d) =
      ⟨some .compare, false, native32.startAddress + 4, native32.startAddress + d⟩ := by
    rw [place, arrivalFurther_op]
    exact congrArg₂ (Place.mk (some .compare) false) (further_nip d _) (further_lnk d _)
  have hoff : (place compareAtStart).offset ≠ (place (arrivalFurther d)).offset := by
    rw [hm, ha]
    show (native32.startAddress - native32.startAddress).setWidth 32 ≠
      (native32.startAddress + 4 - native32.startAddress).setWidth 32
    decide
  rw [InStep, or_iff_right hoff, hm, ha]
  have hlnk : native32.startAddress - native32.startAddress ≠
      native32.startAddress + d - (native32.startAddress + 4) ↔ d ≠ 4 := by
    have hshift : ∀ x y : BitVec 32, x - x ≠ x + y - (x + 4) ↔ y ≠ 4 := fun x y => by bv_omega
    exact hshift _ d
  refine Iff.trans ⟨?_, fun hdiff => ?_⟩ hlnk
  · rintro ⟨-, htest | hne | ⟨-, -, hdiff⟩⟩
    · cases htest
    · exact absurd rfl hne
    · exact hdiff
  · exact ⟨fun hskip => (by cases hskip.1), .inr (.inr ⟨rfl, rfl, hdiff⟩)⟩

/-- With its link register where it was, such an apprentice accepts no `COMPARE` from there. -/
theorem pc_sync_compare : PcSync (place compareAtStart) (place (arrivalFurther 0)) := by
  obtain ⟨⟨r, hr⟩, hm⟩ := compareAtStart_record
  exact (pc_sync_iff rfl false hr hm (.start _) (further 0 (request .compare)) []).1.mpr
    ((inStep_further_iff 0).mpr (by decide))

/-- A `COMPARE` of the master at the start of the image is accepted by an apprentice that stands
4 bytes further on. -/
theorem pc_out_of_sync :
    ¬ ∀ (trace : Bool) (m : Site (port native32)) (r : Record (port native32)),
      m.record = some r → ¬ m.Missing → ∀ (s : State (port native32)) (f : Event (port native32))
      (rest : List Byte),
      (∃ uc st, (fileRun (recvAndCompareRegisterInfo trace s f) (r.wire trace ++ rest)).last =
        .ret (.ok, uc, st)) → r.pc = native32.getPc f.uc (native32.reginfoInit f.uc) := by
  intro h
  obtain ⟨⟨r, hr⟩, hm⟩ := compareAtStart_record
  have hstep : ¬ InStep (place compareAtStart) (place (arrivalFurther 4)) := fun hstep =>
    (inStep_further_iff 4).mp hstep rfl
  obtain ⟨hok, hpc⟩ := Alike.out_of_step rfl hr hm (alike_further 4) hstep false []
  exact hpc (h false _ r hr hm (.start _) (further 4 (request .compare)) [] hok)

end Risu.Ppc64
