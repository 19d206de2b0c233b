import Risu.Gen.Ppc.Walk
import Risu.Live
import Risu.Ppc64.Accepted
import Risu.Ppc64.Port

/-!
# Two runs on one kind of processor

A generated program is executed on two processors of one kind, whose registers hold different values
at first.  The native builds are meant: the handlers run on the processor itself.

* `ucontext`, `restore`, `platform` — a processor under the handlers;
* `Loaded` — the image in memory;
* `abreast_of_pace` — the setup under the handlers;
* `twins_succeed` — the test ends well.
-/

namespace Risu.Ppc64

open Lib Gen.Ppc

variable {b : Build} {P : Processor b.order b.width}

/-! ### A processor under the handlers -/

def regOf (i : Fin 32) : Reg := BitVec.ofFin i

def indexOf (r : Reg) : Fin 32 := r.toFin

/-- What a signal handler finds. -/
def ucontext (P : Processor b.order b.width) (s : Core b.width P.Rest) : Ucontext b.width where
  gregs := fun j =>
    if h : j.val < 32 then s.cpu.gpr (regOf ⟨j, h⟩)
    else if j = risuNip then s.cpu.pc
    else if j = risuMsr then P.msr s.rest
    else if j = risuCtr then s.cpu.ctr
    else if j = risuLnk then s.cpu.lr
    else if j = risuXer then s.cpu.xer
    else if j = risuCcr then s.cpu.cr.setWidth b.width
    else if j = risuMq then s.mq
    else if j = risuDar then P.dar s.rest
    else P.dsisr s.rest
  fpregs := fun i => s.cpu.fpr (regOf i)
  fpscr := s.fpscr
  word := fun p => BitVec.ofNat 32 (valueOf b.order (load s.cpu.mem p 4))

/-- The return to a context. -/
def restore (s : Core b.width P.Rest) (uc : Ucontext b.width) : Core b.width P.Rest where
  cpu :=
    { pc := uc.gregs risuNip
      gpr := fun r => uc.gregs (gprIndex (indexOf r))
      fpr := fun r => uc.fpregs (indexOf r)
      lr := uc.gregs risuLnk
      ctr := uc.gregs risuCtr
      xer := uc.gregs risuXer
      cr := (uc.gregs risuCcr).setWidth 32
      mem := s.cpu.mem }
  mq := uc.gregs risuMq
  fpscr := uc.fpscr
  rest := s.rest

/-- The image on a processor; `behind` is what lies in memory behind the register record. -/
def platform (b : Build) (P : Processor b.order b.width) (behind : ℕ → Byte) : Platform (port b) where
  Machine := Core b.width P.Rest
  step := fun s => P.step (s.fetch b.order) s
  event := fun s =>
    { sig := .sigill
      uc := ucontext P s
      mem := fun p i => s.cpu.mem (p + BitVec.ofNat _ i)
      behindRi := behind }
  restore := restore

theorem width_eq (b : Build) : b.width = 32 ∨ b.width = 64 := by
  rcases b.ptrBytes_eq with h | h
  · exact .inl (by rw [Build.width, h])
  · exact .inr (by rw [Build.width, h])

theorem setWidth_cr (b : Build) (v : BitVec 32) : (v.setWidth b.width).setWidth 32 = v := by
  rw [BitVec.setWidth_setWidth_of_le _ (by rcases width_eq b with h | h <;> omega),
    BitVec.setWidth_eq]

/-- The context of the next instruction. -/
theorem restore_advancePc (hb : b.dppc = false) (s : Core b.width P.Rest) :
    restore s (b.advancePc (ucontext P s)) = s.next := by
  have hgpr : ∀ r : Reg, Function.update (ucontext P s).gregs risuNip
      ((ucontext P s).gregs risuNip + 4) (gprIndex (indexOf r)) = s.cpu.gpr r := fun r => by
    have hlt : (gprIndex (indexOf r)).val < 32 := (indexOf r).isLt
    rw [Function.update_of_ne (fun h => absurd (congrArg Fin.val h) (Nat.ne_of_lt hlt)), ucontext]
    exact dif_pos hlt
  have hcr : ((ucontext P s).gregs risuCcr).setWidth 32 = s.cpu.cr := setWidth_cr b s.cpu.cr
  rw [Build.advancePc, if_neg (by rw [hb]; decide), restore]
  simp only [hgpr]
  refine Core.ext ?_ rfl rfl rfl
  show ({ s.cpu.next with cr := ((ucontext P s).gregs risuCcr).setWidth 32 } : Cpu b.width) = _
  rw [hcr]
  rfl

/-! ### The ops -/

/-- The image lies where the host has put it, as a whole. -/
structure Placed (b : Build) (len : ℕ) : Prop where
  native : b.dppc = false
  fits : len ≤ b.imageSize
  ends : b.startAddress.toNat + b.imageSize < 2 ^ b.width

theorem archToHost32_native (hb : b.dppc = false) (v : BitVec 32) : b.archToHost32 v = v := by
  rw [Build.archToHost32, hb]
  cases b.order <;> rfl

theorem Placed.inside {len : ℕ} (hb : Placed b len) {p : BitVec b.width}
    (hp : p ∈ span b.startAddress len) :
    b.startAddress ≤ p ∧ p < b.startAddress + BitVec.ofNat _ b.imageSize := by
  have hlt : (p - b.startAddress).toNat < len := hp
  have hfits := hb.fits
  have hends := hb.ends
  have hsum : p = b.startAddress + (p - b.startAddress) := by
    rw [BitVec.add_comm, BitVec.sub_add_cancel]
  have hpval : p.toNat = b.startAddress.toNat + (p - b.startAddress).toNat := by
    conv_lhs => rw [hsum]
    rw [BitVec.toNat_add, Nat.mod_eq_of_lt (by omega)]
  have hend : (b.startAddress + BitVec.ofNat b.width b.imageSize).toNat =
      b.startAddress.toNat + b.imageSize := by
    rw [BitVec.toNat_add, BitVec.toNat_ofNat, Nat.mod_eq_of_lt (show b.imageSize < 2 ^ b.width by omega),
      Nat.mod_eq_of_lt hends]
  rw [BitVec.le_def, BitVec.lt_def, hend, hpval]
  omega

/-- The op at a place in the image is read off the word there. -/
theorem event_code {len : ℕ} (hb : Placed b len) (behind : ℕ → Byte) {s : Core b.width P.Rest}
    (hpc : s.cpu.pc ∈ span b.startAddress len) :
    ((platform b P behind).event s).code =
      if s.fetch b.order &&& ~~~0xf ≠ 0x5af0 then RisuOp.sigill.code else s.fetch b.order &&& 0xf := by
  have hinsn : b.insnAt (ucontext P s) ((ucontext P s).gregs risuNip + 0) = s.fetch b.order := by
    have hnip : (ucontext P s).gregs risuNip + 0 = s.cpu.pc := BitVec.add_zero _
    rw [hnip, Build.insnAt]
    exact (if_pos (hb.inside hpc)).trans (archToHost32_native hb.native _)
  show getRisuop (b.reginfoInit (ucontext P s)) = _
  rw [getRisuop, show (b.reginfoInit (ucontext P s)).faultingInsn = s.fetch b.order from hinsn]

/-- No word of the setup asks for an op. -/
theorem decodeSetup_key {w : Word} (h : w &&& ~~~0xf = 0x5af0) : decodeSetup w = none := by
  have hop : w.extractLsb' 26 6 = 0 := by
    have hfield := congrArg (BitVec.extractLsb' 26 6) h
    rw [BitVec.extractLsb'_and, show (~~~(0xf : BitVec 32)).extractLsb' 26 6 = BitVec.allOnes 6 from rfl,
      BitVec.and_allOnes] at hfield
    exact hfield
  rw [decodeSetup, decode, decodeD, hop]
  rfl

/-- A word of the setup that the processor does not have is passed over. -/
theorem event_skipped {len : ℕ} (hb : Placed b len) (behind : ℕ → Byte) {s : Core b.width P.Rest}
    (hpc : s.cpu.pc ∈ span b.startAddress len)
    (hdec : (decodeSetup (s.fetch b.order)).isSome = true) :
    ((platform b P behind).event s).Skipped true := by
  refine ⟨?_, rfl⟩
  rw [event_code hb behind hpc, if_pos]
  intro h
  rw [decodeSetup_key h] at hdec
  cases hdec

/-- A word that asks for an op, taken apart. -/
theorem writeRisuop_fields : ∀ op : BitVec 4,
    writeRisuop (op.setWidth 64) &&& ~~~0xf = 0x5af0 ∧
      writeRisuop (op.setWidth 64) &&& 0xf = op.setWidth 32 := by
  decide

/-- A word that asks for an op. -/
theorem event_risuop {len : ℕ} (hb : Placed b len) (behind : ℕ → Byte) {s : Core b.width P.Rest}
    (hpc : s.cpu.pc ∈ span b.startAddress len) {op : BitVec 4}
    (hword : s.fetch b.order = writeRisuop (op.setWidth 64)) :
    (platform b P behind).step s = none ∧
      ((platform b P behind).event s).code = op.setWidth 32 := by
  obtain ⟨hkey, hop⟩ := writeRisuop_fields op
  refine ⟨?_, ?_⟩
  · show P.step (s.fetch b.order) s = none
    rw [hword, P.step_risuop]
  · rw [event_code hb behind hpc, hword, if_neg (not_not.mpr hkey), hop]

/-! ### Both under the handlers -/

/-- The ground that the two stand on: the image, and a stack pointer of which the slot is free. -/
def ground (b : Build) (P : Processor b.order b.width) (sp : BitVec b.width) (len : ℕ)
    (text : BitVec b.width → Byte)
    (hslot : Apart (span (sp + 16) 16) (span b.startAddress len)) : Ground b.order b.width where
  proc := P
  sp := sp
  code := span b.startAddress len
  text := text
  slot_free := hslot

variable {len : ℕ} {sp : BitVec b.width} {text : BitVec b.width → Byte}
variable {hslot : Apart (span (sp + 16) 16) (span b.startAddress len)}

/-- What both do with a word of the setup, they do under the handlers. -/
theorem abreast_of_pace (hb : Placed b len) (behind : ℕ → Byte)
    {s t : Core b.width P.Rest × Core b.width P.Rest}
    (h : Pace (ground b P sp len text hslot) s t) : Abreast (platform b P behind) true s t := by
  obtain ⟨m, a⟩ := s
  obtain ⟨m', a'⟩ := t
  have hdec : (decodeSetup (a.fetch b.order)).isSome = true := h.fetch ▸ h.decodes
  have hskm := event_skipped hb behind h.inCode h.decodes
  have hska := event_skipped hb behind (s := a) (h.pc ▸ h.inCode) hdec
  have hfetch : a.fetch b.order = m.fetch b.order := h.fetch.symm
  cases h.move with
  | both hm ha =>
    refine .step hm ?_
    show P.step (a.fetch b.order) a = some a'
    rw [hfetch]
    exact ha
  | skip hm ha =>
    have hskip := Abreast.skip (P := platform b P behind) (b := true) (m := m) (a := a) hm
      (by show P.step (a.fetch b.order) a = none; rw [hfetch]; exact ha) rfl rfl hskm hska
    have hnext : ∀ s : Core b.width P.Rest, (platform b P behind).restore s
        ((port b).advancePc ((platform b P behind).event s).uc) = s.next :=
      restore_advancePc hb.native
    rw [hnext, hnext] at hskip
    exact hskip

theorem abreast_of_walk (hb : Placed b len) (behind : ℕ → Byte)
    {s t : Core b.width P.Rest × Core b.width P.Rest}
    (h : Walk (ground b P sp len text hslot) s t) :
    Relation.ReflTransGen (Abreast (platform b P behind) true) s t :=
  Relation.ReflTransGen.mono
    (fun _ _ (hpace : Pace (ground b P sp len text hslot) _ _) => abreast_of_pace hb behind hpace) _ _ h

/-- A record of the port next to itself. -/
theorem port_reflexive (b : Build) : Reflexive (port b) where
  accepts n uc := ⟨_, reginfoIsEq_of_same b.options n
    ⟨fun _ => rfl, rfl, rfl, rfl, rfl, rfl, rfl, rfl, rfl⟩⟩
  keeps uc := by
    have hgregs : (fun j => if b.updates j then uc.gregs j else uc.gregs j) = uc.gregs :=
      funext fun j => ite_self _
    show ({ uc with gregs := fun j => if b.updates j then uc.gregs j else uc.gregs j } :
      Ucontext b.width) = uc
    rw [hgregs]
    rfl

/-! ### The whole run -/

/-- The words lie in memory. -/
def Loaded (o : Order) {n : ℕ} (mem : BitVec n → Byte) (p : BitVec n) (ws : List Word) : Prop :=
  load mem p (4 * ws.length) = ws.flatMap fun w => bytesOf o 4 w.toNat

theorem holds_of_loaded {n : ℕ} {o : Order} {G : Ground o n} {p : BitVec n} {ws : List Word}
    (hcode : span p (4 * ws.length) ⊆ G.code) (h : Loaded o G.text p ws) : G.Holds p ws := by
  induction ws generalizing p with
  | nil => trivial
  | cons w ws ih =>
    have hlen : 4 * (w :: ws).length = 4 + 4 * ws.length := by
      rw [List.length_cons]
      omega
    rw [hlen] at hcode
    rw [Loaded, hlen, load_add, List.flatMap_cons] at h
    obtain ⟨hw, hws⟩ := List.append_inj h (by rw [length_load, bytesOf_length])
    refine ⟨fun x hx => hcode (show (x - p).toNat < _ from Nat.lt_add_right _ hx), hw, ih ?_ hws⟩
    exact (span_subset p (le_refl _)).trans hcode

/-- The memory that the setup overwrites: the slot above the stack pointer, or all that the loop
clears. -/
def scratch {n : ℕ} (memory : Bool) (sp : BitVec n) : Set (BitVec n) :=
  if memory then span (sp + 132 - BitVec.ofNat n 80000) 80000 else span (sp + 16) 16

/-- Two processors of one kind at the start of one program.  They may differ in all general-purpose
registers but the stack pointer, in the condition register, `XER`, `CTR` and `LR`, in the memory that
the setup overwrites, and in `MQ` and the floating-point registers if the setup writes these. -/
structure Twins (P : Processor b.order b.width) (fp memory : Bool) (program : List Word)
    (m a : Core b.width P.Rest) : Prop where
  placed : Placed b (4 * program.length)
  pcLeft : m.cpu.pc = b.startAddress
  pcRight : a.cpu.pc = b.startAddress
  image : Loaded b.order m.cpu.mem b.startAddress program
  sp : m.cpu.gpr 1#5 = a.cpu.gpr 1#5
  fpr : fp = false → m.cpu.fpr = a.cpu.fpr
  mq : P.units.hasMq = false → m.mq = a.mq
  fpscr : m.fpscr = a.fpscr
  rest : m.rest = a.rest
  mem : ∀ x, x ∉ scratch memory (m.cpu.gpr 1#5) → m.cpu.mem x = a.cpu.mem x
  free : Apart (scratch memory (m.cpu.gpr 1#5)) (span b.startAddress (4 * program.length))

theorem slot_subset_scratch {n : ℕ} (memory : Bool) (sp : BitVec n) :
    span (sp + 16) 16 ⊆ scratch memory sp := by
  cases memory with
  | false => exact subset_rfl
  | true =>
    have hsum : sp + 16 = sp + 132 - BitVec.ofNat n 80000 + BitVec.ofNat n 79884 := by
      have hfar : BitVec.ofNat n 80000 = BitVec.ofNat n 79884 + BitVec.ofNat n 116 := by
        rw [← BitVec.ofNat_add]
      have hnear : (132 : BitVec n) = 16 + BitVec.ofNat n 116 := BitVec.ofNat_add 16 116
      grind
    rw [hsum]
    exact span_subset _ (by decide)

namespace Twins

variable {fp memory : Bool} {program : List Word} {m a : Core b.width P.Rest}

theorem slot_free (h : Twins P fp memory program m a) :
    Apart (span (m.cpu.gpr 1#5 + 16) 16) (span b.startAddress (4 * program.length)) :=
  h.free.subset (slot_subset_scratch memory _)

/-- The ground that the two stand on. -/
def ground (h : Twins P fp memory program m a) : Ground b.order b.width :=
  Ppc64.ground b P (m.cpu.gpr 1#5) (4 * program.length) m.cpu.mem h.slot_free

theorem holds (h : Twins P fp memory program m a) : h.ground.Holds b.startAddress program :=
  holds_of_loaded subset_rfl h.image

theorem agreeBut (h : Twins P fp memory program m a) :
    AgreeBut h.ground (.start fp P.units.hasMq (scratch memory (m.cpu.gpr 1#5))) m a where
  pc := h.pcLeft.trans h.pcRight.symm
  sp := rfl
  gpr r hr := by rw [not_not.mp hr]; exact h.sp
  fpr r hr := by
    have hfp : fp = false := Bool.eq_false_of_not_eq_true hr
    rw [h.fpr hfp]
  cr hn := absurd trivial hn
  xer hn := absurd trivial hn
  ctr hn := absurd trivial hn
  lr hn := absurd trivial hn
  mq hn := h.mq (Bool.eq_false_of_not_eq_true hn)
  mem x hx := h.mem x hx
  fpscr := h.fpscr
  rest := h.rest
  text x hx := ⟨rfl, (h.mem x fun hin => h.free x hin hx).symm⟩

/-- **The setup makes the two equal**, and leaves the program as it is. -/
theorem settled (h : Twins P fp memory program m a) {be : Bool} {d : SetupDraws}
    {w : Word} {rest : List Word} (hp : program = w :: (writeSetup be fp memory d ++ rest)) :
    ∃ s : Core b.width P.Rest, Walk h.ground (m.next, a.next) (s, s) ∧ AgreeBut h.ground .none s s ∧
      s.cpu.pc = behind (b.startAddress + 4) (writeSetup be fp memory d) := by
  have hn : 32 ≤ b.width := by rcases width_eq b with hw | hw <;> omega
  have hhold : h.ground.Holds (b.startAddress + 4) (writeSetup be fp memory d) := by
    have hall := (congrArg (h.ground.Holds b.startAddress) hp).mp h.holds
    exact (Ground.holds_append.mp hall.2.2).1
  have hpc : m.next.cpu.pc = b.startAddress + 4 := congrArg (· + 4) h.pcLeft
  have hagree := h.agreeBut.next
  have hdata : ∀ {U : Set (BitVec b.width)}, U ⊆ span (m.cpu.gpr 1#5 + 16) 16 → Settles h.ground
      (writeRandomRegisterData be fp d) (.start fp P.units.hasMq U) .none := fun hU =>
    settles_writeRandomRegisterData (G := h.ground) (by omega) be fp d hU
  cases memory with
  | false =>
    obtain ⟨m', a', hwalk, hend, hpc'⟩ := (hdata subset_rfl).walk (by omega) hhold hagree hpc
    obtain rfl := hend.eq
    exact ⟨m', hwalk, hend, hpc'⟩
  | true =>
    obtain ⟨hclear, hregs⟩ := Ground.holds_append.mp hhold
    obtain ⟨m₁, a₁, hwalk₁, h₁, hpc₁⟩ := walk_writeMemblockSetup hn hclear h.free hagree hpc
    obtain ⟨m', a', hwalk, hend, hpc'⟩ := (hdata (Set.sdiff_eq_empty.mpr subset_rfl ▸
      Set.empty_subset _)).walk (by omega) hregs h₁ hpc₁
    obtain rfl := hend.eq
    exact ⟨m', hwalk₁.trans hwalk, hend, hpc'.trans (behind_append _ _ _).symm⟩

end Twins

/-- What `write_test_code` writes begins with the setup. -/
theorem writeTestCode_setup (be fp memory : Bool) (d : SetupDraws) (numinsns : ℕ)
    (genOneInsn : ℕ → List Word) (again : ℕ → SetupDraws) :
    ∃ rest, writeTestCode be fp memory d numinsns genOneInsn again =
      writeRisuop opSetupbegin :: (writeSetup be fp memory d ++ rest) :=
  ⟨_, by
    rw [writeTestCode]
    simp only [List.append_assoc, List.cons_append, List.nil_append]
    rfl⟩

/-- The image stands at a word that asks for an op. -/
structure AtOp (P : Processor b.order b.width) (behind : ℕ → Byte) (s : Core b.width P.Rest)
    (op : RisuOp) : Prop where
  stops : (platform b P behind).step s = none
  code : ((platform b P behind).event s).code = op.code

theorem Twins.atOp {fp memory : Bool} {program : List Word} {m a s : Core b.width P.Rest}
    (h : Twins P fp memory program m a) (behind : ℕ → Byte) {p : BitVec b.width} {w : Word}
    {ws : List Word} (hold : h.ground.Holds p (w :: ws)) (hpc : s.cpu.pc = p)
    (htext : ∀ x ∈ h.ground.code, s.cpu.mem x = h.ground.text x) {op : RisuOp} {c : BitVec 4}
    (hw : w = writeRisuop (c.setWidth 64)) (hc : c.setWidth 32 = op.code) : AtOp P behind s op := by
  have hfetch := fetch_text (by rcases width_eq b with hw | hw <;> omega) hpc hold.1 hold.2.1 htext
  obtain ⟨hstop, hcode⟩ := event_risuop h.placed behind
    (by rw [hpc]; exact hold.1 (self_mem_span _ (by decide))) (hfetch.trans hw)
  exact ⟨hstop, hcode.trans hc⟩

/-- Two images at one op that is not about memory. -/
theorem AtOp.meets {behind : ℕ → Byte} {s t : Core b.width P.Rest} {op : RisuOp}
    (hs : AtOp P behind s op) (ht : AtOp P behind t op) (hop : op ≠ .sigill)
    (hmem : op ≠ .comparemem) (isSetup : Bool) (x : Memblock (port b)) :
    Meets isSetup x ((platform b P behind).event s) ((platform b P behind).event t) op op where
  sigLeft := rfl
  sigRight := rfl
  opLeft := by rw [hs.code, RisuOp.ofCode_code]
  opRight := by rw [ht.code, RisuOp.ofCode_code]
  keptLeft := fun h => hop (RisuOp.code_injective (hs.code.symm.trans h.1))
  keptRight := fun h => hop (RisuOp.code_injective (ht.code.symm.trans h.1))
  present := fun h => absurd h hmem

theorem platform_next (hb : b.dppc = false) (behind : ℕ → Byte) (s : Core b.width P.Rest) :
    (platform b P behind).restore s ((port b).advancePc ((platform b P behind).event s).uc) = s.next :=
  restore_advancePc hb s

/-- The two programs at the start of the image are decided by the run of the master's image alone. -/
theorem Twins.decides {fp memory : Bool} {program rest : List Word} {be : Bool} {d : SetupDraws}
    {m a : Core b.width P.Rest} (h : Twins P fp memory program m a) (behind : ℕ → Byte)
    (hp : program = writeRisuop opSetupbegin :: (writeSetup be fp memory d ++ rest))
    {x : Memblock (port b)} (hfin : Finishes (platform b P behind) false x m) :
    ∀ n, Decides (platform b P behind) (platform b P behind) (.twice false n x) m a .resEnd := by
  obtain ⟨s, hwalk, -, -⟩ := h.settled hp
  have habreast := abreast_of_walk h.placed behind hwalk
  -- both stand at the word that begins the setup
  have hhold := (congrArg (h.ground.Holds b.startAddress) hp).mp h.holds
  have hm : AtOp P behind m .setupbegin :=
    h.atOp behind hhold h.pcLeft (fun x hx => (h.agreeBut.text x hx).1) (c := 5#4) rfl rfl
  have ha : AtOp P behind a .setupbegin :=
    h.atOp behind hhold h.pcRight (fun x hx => (h.agreeBut.text x hx).2) (c := 5#4) rfl rfl
  -- from there on the master alone, and the two next to each other
  have hafter : Finishes (platform b P behind) true x m.next := by
    have := hfin.op_inv hm.stops (hm.meets hm (by decide) (by decide) false x) (by decide)
    rwa [Memblock.handedBack, if_neg (by decide), platform_next h.placed.native] at this
  have hend : Finishes (platform b P behind) true x s := Finishes.walk habreast hafter
  have hrest := Decides.walk habreast (hend.decides (port_reflexive b))
  refine fun n => .agree hm.stops ha.stops (hm.meets ha (by decide) (by decide) false x) (by decide)
    (fun hreg => by cases hreg) (fun hop => by cases hop) ?_
  rw [accepted, if_neg (by decide), Memblock.handedBack, if_neg (by decide), Memblock.handedBack,
    if_neg (by decide), platform_next h.placed.native, platform_next h.placed.native]
  exact hrest (n + 1)

/-- **Two runs on one kind of processor.**  If the program that `write_test_code` writes comes to
`TESTEND` on one of two such processors, then every run of the two programs `risu` comes to an end,
and both have been told to exit: no comparison has failed on the way. -/
theorem twins_succeed {fp memory : Bool} {d : SetupDraws} {numinsns : ℕ} {genOneInsn : ℕ → List Word}
    {again : ℕ → SetupDraws} {m a : Core b.width P.Rest} (behind : ℕ → Byte)
    (h : Twins P fp memory
      (writeTestCode (b.order == .big) fp memory d numinsns genOneInsn again) m a)
    (hfin : Finishes (platform b P behind) false ⟨0, none⟩ m) :
    ∃ k₀, ∀ k l, k₀ ≤ k → k₀ ≤ l →
      (liveSession (platform b P behind) (platform b P behind) k l m a).Stops ∧
      ∀ hist S, Run (liveSession (platform b P behind) (platform b P behind) k l m a) hist S →
        S.Final → (∃ sf, S.left = .ret (.jump .resEnd, sf)) ∧
          ∃ tf, S.right = .ret (.jump .resEnd, tf) := by
  obtain ⟨rest, hp⟩ := writeTestCode_setup (b.order == .big) fp memory d numinsns genOneInsn again
  obtain ⟨k₀, hk₀⟩ := (h.decides behind hp hfin 0).settles
    (by rw [port_swapsHeader, h.placed.native]; rfl)
  refine ⟨k₀, fun k l hk hl => ?_⟩
  obtain ⟨sf, tf, hset⟩ := hk₀ k l hk hl (.start _) (.start _) rfl ⟨rfl, rfl⟩
  refine ⟨hset.outcome.1, fun hist S hrun hfinal => ?_⟩
  obtain ⟨hleft, hright⟩ := hset.outcome.2 hist S hrun hfinal
  exact ⟨⟨sf, hleft⟩, tf, hright⟩

/-! ### A program without instructions under test -/

/-- The program that `write_test_code` writes for no instructions comes to `TESTEND` anywhere. -/
theorem Twins.finishes {fp memory : Bool} {program : List Word} {be : Bool} {d : SetupDraws}
    {m : Core b.width P.Rest} (h : Twins P fp memory program m m) (behind : ℕ → Byte)
    (hp : program = writeRisuop opSetupbegin :: (writeSetup be fp memory d ++
      [writeRisuop opSetupend, writeRisuop opCompare, writeRisuop opTestend])) :
    Finishes (platform b P behind) false ⟨0, none⟩ m := by
  obtain ⟨s, hwalk, hs, hpc⟩ := h.settled hp
  have htext : ∀ x ∈ h.ground.code, s.cpu.mem x = h.ground.text x := fun x hx => (hs.text x hx).1
  have hhold := (congrArg (h.ground.Holds b.startAddress) hp).mp h.holds
  have hback := (Ground.holds_append.mp hhold.2.2).2
  have hbegin : AtOp P behind m .setupbegin :=
    h.atOp behind hhold h.pcLeft (fun x hx => (h.agreeBut.text x hx).1) (c := 5#4) rfl rfl
  have hend : AtOp P behind s .setupend := h.atOp behind hback hpc htext (c := 6#4) rfl rfl
  have hcompare : AtOp P behind s.next .compare :=
    h.atOp (s := s.next) behind hback.2.2 (congrArg (· + 4) hpc) htext (c := 0#4) rfl rfl
  have htestend : AtOp P behind s.next.next .testend :=
    h.atOp (s := s.next.next) behind hback.2.2.2.2 (congrArg (· + 4 + 4) hpc) htext (c := 1#4) rfl rfl
  have hlast : Finishes (platform b P behind) false ⟨0, none⟩ s.next.next :=
    .testend htestend.stops (htestend.meets htestend (by decide) (by decide) false _)
  have hops : Finishes (platform b P behind) true ⟨0, none⟩ s := by
    refine .op hend.stops (hend.meets hend (by decide) (by decide) true _) (by decide) ?_
    rw [Memblock.handedBack, if_neg (by decide), platform_next h.placed.native]
    refine .op hcompare.stops (hcompare.meets hcompare (by decide) (by decide) false _) (by decide) ?_
    rw [Memblock.handedBack, if_neg (by decide), platform_next h.placed.native]
    exact hlast
  refine .op hbegin.stops (hbegin.meets hbegin (by decide) (by decide) false _) (by decide) ?_
  rw [Memblock.handedBack, if_neg (by decide), platform_next h.placed.native]
  exact Finishes.of_walk (abreast_of_walk h.placed behind hwalk) hops

/-- A processor with the instructions of the setup only, and neither `MQ` nor vector registers. -/
def plainProcessor (o : Order) (n : ℕ) : Processor o n where
  Rest := Unit
  units := ⟨false, none⟩
  msr := fun _ => 0
  dar := fun _ => 0
  dsisr := fun _ => 0
  step := fun w s => (decodeSetup w).bind fun i => perform o ⟨false, none⟩ i s
  step_setup := fun w i s hw => by rw [hw]; rfl
  step_risuop := fun op s => by rw [decodeSetup_key (writeRisuop_fields op).1]; rfl

/-- All numbers drawn are 0. -/
def zeroDraws : SetupDraws := ⟨fun _ => (0, 0), fun _ => ((0, 0), (0, 0)), 0, 0, fun _ => 0⟩

/-- The program for no instructions, with memory patterns and floating point. -/
def blank : List Word :=
  writeTestCode (native32.order == .big) true true zeroDraws 0 (fun _ => []) fun _ => zeroDraws

theorem blank_eq : blank = writeRisuop opSetupbegin ::
    (writeSetup (native32.order == .big) true true zeroDraws ++
      [writeRisuop opSetupend, writeRisuop opCompare, writeRisuop opTestend]) := by
  rw [blank, writeTestCode]
  simp only [List.append_assoc, List.cons_append, List.nil_append, List.range'_zero,
    List.flatMap_nil]

/-- The processor at the start of the program, with a value in all registers but the stack pointer. -/
def blankStart (v : BitVec 32) : Core 32 Unit where
  cpu :=
    { pc := 0x1000
      gpr := fun r => if r = 1#5 then 0x100000 else v
      fpr := fun _ => v.setWidth 64
      lr := v
      ctr := v
      xer := v
      cr := v
      mem := store (fun _ => 0) 0x1000 (blank.flatMap fun w => bytesOf .big 4 w.toNat) }
  mq := 0
  fpscr := 0
  rest := ()

theorem blank_length : 4 * blank.length ≤ 0x10000 := by decide +kernel

theorem length_flatMap_bytesOf (o : Order) (ws : List Word) :
    (ws.flatMap fun w => bytesOf o 4 w.toNat).length = 4 * ws.length := by
  induction ws with
  | nil => rfl
  | cons w ws ih =>
    rw [List.flatMap_cons, List.length_append, bytesOf_length, ih, List.length_cons]
    omega

theorem blankStart_image (v : BitVec 32) :
    Loaded .big (blankStart v).cpu.mem (0x1000 : BitVec 32) blank := by
  rw [Loaded, ← length_flatMap_bytesOf .big blank]
  refine load_store _ _ ?_
  rw [length_flatMap_bytesOf]
  exact blank_length.trans (by decide)

theorem blankStart_twins (v v' : BitVec 32) :
    Twins (b := native32) (plainProcessor .big 32) true true blank (blankStart v) (blankStart v') where
  placed := ⟨rfl, blank_length, by decide⟩
  pcLeft := rfl
  pcRight := rfl
  image := blankStart_image v
  sp := rfl
  fpr := fun h => by cases h
  mq := fun _ => rfl
  fpscr := rfl
  rest := rfl
  mem := fun _ _ => rfl
  free := by
    refine Apart.symm (span_apart ?_ ?_)
    · refine blank_length.trans ?_
      show 0x10000 ≤ ((0x100000#32 + 132 - BitVec.ofNat 32 80000) - 0x1000#32).toNat
      decide
    · show ((0x100000#32 + 132 - BitVec.ofNat 32 80000) - 0x1000#32).toNat + 80000 ≤ 2 ^ 32
      decide

/-- `twins_succeed` for registers that hold 0 on one side and 7 on the other. -/
theorem twins_succeed_blank : ∃ k₀, ∀ k l, k₀ ≤ k → k₀ ≤ l →
    (liveSession (platform native32 (plainProcessor .big 32) fun _ => 0)
      (platform native32 (plainProcessor .big 32) fun _ => 0) k l (blankStart 0) (blankStart 7)).Stops ∧
    ∀ hist S, Run (liveSession (platform native32 (plainProcessor .big 32) fun _ => 0)
      (platform native32 (plainProcessor .big 32) fun _ => 0) k l (blankStart 0) (blankStart 7))
        hist S → S.Final → (∃ sf, S.left = .ret (.jump .resEnd, sf)) ∧
          ∃ tf, S.right = .ret (.jump .resEnd, tf) :=
  twins_succeed (b := native32) (fun _ => 0) (blankStart_twins 0 7)
    ((blankStart_twins 0 0).finishes (fun _ => 0) blank_eq)

/-! ### Two programs that do not agree -/

/-- An image that stands at an op. -/
def standing : Platform (port native32) where
  Machine := Event (port native32)
  step := fun _ => none
  event := id
  restore := fun e _ => e

/-- `live_decided` for images that begin with a `SETUPBEGIN` and a `COMPARE`. -/
theorem live_decided_mismatchOp : ∃ k₀, ∀ k l, k₀ ≤ k → k₀ ≤ l →
    (liveSession standing standing k l (request .setupbegin) (request .compare)).Stops ∧
      ∀ hist S, Run (liveSession standing standing k l (request .setupbegin) (request .compare)) hist S →
        S.Final → (∃ sf, S.left = .ret (.jump .resEnd, sf)) ∧
          ∃ tf, S.right = .ret (.jump .mismatchOp, tf) := by
  have hcode : ∀ op : RisuOp, op ≠ .sigill → ¬ (request op).Skipped false := fun _ _ h =>
    Bool.false_ne_true h.2
  exact live_decided native32_swapsHeader (.mismatchOp rfl rfl
    ⟨rfl, rfl, request_op .setupbegin, request_op .compare, hcode _ (by decide), hcode _ (by decide),
      fun h => by cases h⟩ (by decide) fun h => by cases h)

end Risu.Ppc64
