import Risu.Gen.Perl
import Risu.Lib.Memory
import Risu.S390x.Reginfo

/-!
# The set-up of the s390x generator (`risugen_s390x.pm`)

* `writeMovRi`, `writeMovFp`, `writeRandomRegdata`, `writeRisuop` — the code that is written;
* `run` — the instructions of this code: `lgfi`, `iihf`, `ldgr` and `sfpc`;
* `run_writeRandomRegdata` — what the set-up leaves in the registers;
* `setup_agrees` — behind the set-up the records of any two runs compare equal.
-/

namespace Risu.Gen.S390x

open Lib

/-! ### Writers -/

abbrev Reg := BitVec 4

/-- A register's number. -/
def num (r : Reg) : BitVec 64 := r.setWidth 64

def writeRisuop (op : BitVec 64) : List Half := insn32Halves (0x835a0f00#64 ||| op)

def writeMovRi (r : Reg) (immH immL : BitVec 64) : List Half :=
  [insn16 ((0xc0#64 <<< 8) ||| (num r <<< 4) ||| 0x1#64)] ++ insn32Halves immL ++
    [insn16 ((0xc0#64 <<< 8) ||| (num r <<< 4) ||| 0x8#64)] ++ insn32Halves immH

def writeMovFp (r : Reg) (imm : BitVec 64) : List Half :=
  writeMovRi 0 (~~~imm) imm ++ insn32Halves ((0xb3c1#64 <<< 16) ||| (num r <<< 4))

/-- What `irand` returns in `write_random_regdata`. -/
structure Draws where
  fp : Reg → BitVec 32
  fpc : BitVec 32
  high : Reg → BitVec 32
  low : Reg → BitVec 32

/-- `for (my $i = 0; $i < 16; $i++)` -/
def regs : List Reg := (List.range 16).map (BitVec.ofNat 4)

def writeRandomRegdata (d : Draws) : List Half :=
  (regs.flatMap fun i => writeMovFp i ((d.fp i).setWidth 64)) ++
    writeMovRi 0 0 ((d.fpc.setWidth 64) &&& 0x00fcff77#64) ++ insn32Halves 0xb3840000#64 ++
    regs.flatMap fun i => writeMovRi i ((d.high i).setWidth 64) ((d.low i).setWidth 64)

/-! ### The processor -/

/-- The registers that are compared, and whatever else there is. -/
@[ext]
structure Cpu (Rest : Type) where
  gpr : Reg → BitVec 64
  fpr : Reg → BitVec 64
  fpc : BitVec 32
  rest : Rest

variable {Rest : Type} {valid : BitVec 32 → Bool}

/-- `lgfi` and `iihf` -/
def exec6 (h : Half) (imm : BitVec 32) (s : Cpu Rest) : Option (Cpu Rest) :=
  let r := h.extractLsb' 4 4
  if h.extractLsb' 8 8 = 0xc0 ∧ h.extractLsb' 0 4 = 1 then
    some { s with gpr := Function.update s.gpr r (imm.signExtend 64) }
  else if h.extractLsb' 8 8 = 0xc0 ∧ h.extractLsb' 0 4 = 8 then
    some { s with gpr := Function.update s.gpr r (imm ++ (s.gpr r).setWidth 32) }
  else none

/-- `ldgr` and `sfpc`; the values that `sfpc` takes are a parameter. -/
def exec4 (valid : BitVec 32 → Bool) (h h' : Half) (s : Cpu Rest) : Option (Cpu Rest) :=
  let r := h'.extractLsb' 4 4
  if h = 0xb3c1#16 then
    some { s with fpr := Function.update s.fpr r (s.gpr (h'.extractLsb' 0 4)) }
  else if h = 0xb384#16 then
    let v := (s.gpr r).setWidth 32
    if valid v then some { s with fpc := v } else none
  else none

/-- The instructions one after the other; `none` where one is not of the set-up or raises an exception. -/
def run (valid : BitVec 32 → Bool) : List Half → Cpu Rest → Option (Cpu Rest)
  | [], s => some s
  | [_], _ => none
  | [h0, h1], s => exec4 valid h0 h1 s
  | h0 :: h1 :: h2 :: hs, s =>
    -- the first two bits tell the length
    if h0.extractLsb' 14 2 = 3 then (exec6 h0 (h1 ++ h2) s).bind (run valid hs)
    else (exec4 valid h0 h1 s).bind (run valid (h2 :: hs))

variable {s : Cpu Rest} {hs : List Half}

theorem run_exec4 {h h' : Half} (hlen : h.extractLsb' 14 2 ≠ 3) :
    run valid (h :: h' :: hs) s = (exec4 valid h h' s).bind (run valid hs) := by
  cases hs with
  | nil =>
    rw [run]
    cases exec4 valid h h' s <;> rfl
  | cons h2 hs => rw [run, if_neg hlen]

/-! ### What the writers do -/

/-- The register with these halves. -/
def Cpu.setGpr (s : Cpu Rest) (r : Reg) (high low : BitVec 32) : Cpu Rest :=
  { s with gpr := Function.update s.gpr r (high ++ low) }

theorem Cpu.gpr_setGpr (r : Reg) (high low : BitVec 32) :
    (s.setGpr r high low).gpr = Function.update s.gpr r (high ++ low) := rfl

theorem movRi_fields (r : Reg) (k : BitVec 4) :
    (insn16 ((0xc0#64 <<< 8) ||| (num r <<< 4) ||| num k)).extractLsb' 14 2 = 3 ∧
      (insn16 ((0xc0#64 <<< 8) ||| (num r <<< 4) ||| num k)).extractLsb' 8 8 = 0xc0 ∧
      (insn16 ((0xc0#64 <<< 8) ||| (num r <<< 4) ||| num k)).extractLsb' 4 4 = r ∧
      (insn16 ((0xc0#64 <<< 8) ||| (num r <<< 4) ||| num k)).extractLsb' 0 4 = k := by
  revert r k
  decide

theorem setWidth_signExtend (x : BitVec 32) : (x.signExtend 64).setWidth 32 = x := by
  apply BitVec.eq_of_getLsbD_eq
  intro i hi
  rw [BitVec.getLsbD_setWidth, BitVec.getLsbD_signExtend]
  simp [hi, show i < 64 by omega]

theorem run_writeMovRi (r : Reg) (immH immL : BitVec 64) :
    run valid (writeMovRi r immH immL ++ hs) s =
      run valid hs (s.setGpr r (insn32 immH) (insn32 immL)) := by
  obtain ⟨hlen, hop, hr, hk⟩ := movRi_fields r 1
  obtain ⟨hlen', hop', hr', hk'⟩ := movRi_fields r 8
  have hcode : writeMovRi r immH immL ++ hs =
      insn16 ((0xc0#64 <<< 8) ||| (num r <<< 4) ||| num 1) :: (insn32 immL).extractLsb' 16 16 ::
        (insn32 immL).extractLsb' 0 16 :: insn16 ((0xc0#64 <<< 8) ||| (num r <<< 4) ||| num 8) ::
        (insn32 immH).extractLsb' 16 16 :: (insn32 immH).extractLsb' 0 16 :: hs := rfl
  rw [hcode, run, if_pos hlen, exec6, if_pos ⟨hop, hk⟩, Option.bind_some, run, if_pos hlen', exec6,
    if_neg (fun h => absurd (hk'.symm.trans h.2) (by decide)), if_pos ⟨hop', hk'⟩, Option.bind_some]
  simp only [halves_append, hr, hr', Function.update_self, Function.update_idem, setWidth_signExtend,
    Cpu.setGpr]

theorem run_writeMovFp (r : Reg) (imm : BitVec 64) :
    run valid (writeMovFp r imm ++ hs) s =
      run valid hs { s.setGpr 0 (insn32 (~~~imm)) (insn32 imm) with
        fpr := Function.update s.fpr r (insn32 (~~~imm) ++ insn32 imm) } := by
  have hcode : insn32Halves ((0xb3c1#64 <<< 16) ||| (num r <<< 4)) = [0xb3c1#16, r.setWidth 16 <<< 4] := by
    revert r
    decide
  have hr : (r.setWidth 16 <<< 4).extractLsb' 4 4 = r := by
    revert r
    decide
  have h0 : (r.setWidth 16 <<< 4).extractLsb' 0 4 = 0 := by
    revert r
    decide
  rw [writeMovFp, List.append_assoc, run_writeMovRi, hcode, List.cons_append, List.cons_append,
    List.nil_append, run_exec4 (by decide), exec4, if_pos rfl, Option.bind_some]
  simp only [hr, h0, Cpu.setGpr, Function.update_self]

/-- A value for the FPC, by way of register 0. -/
theorem run_writeFpc (v : BitVec 64) :
    run valid (writeMovRi 0 0 v ++ (insn32Halves 0xb3840000#64 ++ hs)) s =
      if valid (insn32 v) then run valid hs { s.setGpr 0 0 (insn32 v) with fpc := insn32 v } else none := by
  have hcode : insn32Halves 0xb3840000#64 = [0xb384#16, 0#16] := by decide
  have hfpc : ((s.setGpr 0 (insn32 0) (insn32 v)).gpr ((0#16).extractLsb' 4 4)).setWidth 32 = insn32 v := by
    rw [show (0#16).extractLsb' 4 4 = (0 : Reg) from rfl, Cpu.gpr_setGpr, Function.update_self]
    exact BitVec.setWidth_append_eq_right
  rw [run_writeMovRi, hcode, List.cons_append, List.cons_append, List.nil_append, run_exec4 (by decide),
    exec4, if_neg (by decide), if_pos rfl]
  simp only [hfpc]
  split_ifs <;> rfl

/-- A loop over registers. -/
theorem run_flatMap {code : Reg → List Half} {step : Reg → Cpu Rest → Cpu Rest}
    (h : ∀ i hs s, run valid (code i ++ hs) s = run valid hs (step i s)) (rs : List Reg) (hs : List Half)
    (s : Cpu Rest) :
    run valid (rs.flatMap code ++ hs) s = run valid hs (rs.foldl (fun s i => step i s) s) := by
  induction rs generalizing s with
  | nil => rfl
  | cons r rs ih => rw [List.flatMap_cons, List.append_assoc, h, ih, List.foldl_cons]

theorem foldl_setGpr (high low : Reg → BitVec 32) (rs : List Reg) (s : Cpu Rest) :
    rs.foldl (fun s i => s.setGpr i (high i) (low i)) s =
      { s with gpr := scatter (fun i => high i ++ low i) (rs.map fun i => (i, i)) s.gpr } := by
  induction rs generalizing s with
  | nil => rfl
  | cons r rs ih => exact ih _

theorem foldl_movFp (high low : Reg → BitVec 32) (rs : List Reg) (s : Cpu Rest) :
    ∃ g, rs.foldl (fun s i =>
        { s.setGpr 0 (high i) (low i) with fpr := Function.update s.fpr i (high i ++ low i) }) s =
      { s with gpr := g, fpr := scatter (fun i => high i ++ low i) (rs.map fun i => (i, i)) s.fpr } := by
  induction rs generalizing s with
  | nil => exact ⟨s.gpr, rfl⟩
  | cons r rs ih => exact ih _

/-- A loop over all registers leaves nothing of what was there before. -/
theorem scatter_regs (value : Reg → BitVec 64) (dst : Reg → BitVec 64) :
    scatter value (regs.map fun i => (i, i)) dst = value := by
  have hnodup : ((regs.map fun i => (i, i)).map Prod.fst).Nodup := by decide
  have hmem : ∀ r : Reg, (r, r) ∈ regs.map fun i => (i, i) := by decide
  funext r
  exact scatter_of_mem hnodup (hmem r) dst

/-! ### The set-up -/

/-- The value that is loaded into the FPC. -/
def Draws.fpcValue (d : Draws) : BitVec 32 := d.fpc &&& 0x00fcff77#32

/-- The registers as the set-up leaves them. -/
def Draws.cpu (d : Draws) (rest : Rest) : Cpu Rest where
  gpr := fun r => d.high r ++ d.low r
  fpr := fun r => ~~~(d.fp r) ++ d.fp r
  fpc := d.fpcValue
  rest := rest

/-- **The set-up runs to its end if and only if the value for the FPC is one that `sfpc` takes, and then
every register is as drawn.** -/
theorem run_writeRandomRegdata (d : Draws) (s : Cpu Rest) :
    run valid (writeRandomRegdata d) s = if valid d.fpcValue then some (d.cpu s.rest) else none := by
  have hvalue (x : BitVec 32) : insn32 (x.setWidth 64) = x := by
    rw [insn32, BitVec.setWidth_setWidth_of_le _ (by decide), BitVec.setWidth_eq]
  have hfpc : insn32 (d.fpc.setWidth 64 &&& 0x00fcff77#64) = d.fpcValue := by
    rw [insn32, BitVec.setWidth_and]
    exact congrArg (· &&& 0x00fcff77#32) (hvalue d.fpc)
  have hfp (i : Reg) (hs : List Half) (s : Cpu Rest) :
      run valid (writeMovFp i ((d.fp i).setWidth 64) ++ hs) s =
        run valid hs { s.setGpr 0 (~~~(d.fp i)) (d.fp i) with
          fpr := Function.update s.fpr i (~~~(d.fp i) ++ d.fp i) } := by
    have hnot : insn32 (~~~((d.fp i).setWidth 64)) = ~~~(d.fp i) := by
      rw [insn32, BitVec.setWidth_not (by decide)]
      exact congrArg (~~~·) (hvalue (d.fp i))
    rw [run_writeMovFp, hnot, hvalue]
  have hgpr (i : Reg) (hs : List Half) (s : Cpu Rest) :
      run valid (writeMovRi i ((d.high i).setWidth 64) ((d.low i).setWidth 64) ++ hs) s =
        run valid hs (s.setGpr i (d.high i) (d.low i)) := by
    rw [run_writeMovRi, hvalue, hvalue]
  obtain ⟨g, hfold⟩ := foldl_movFp (fun i => ~~~(d.fp i)) d.fp regs s
  have hregs := @run_flatMap Rest valid _ _ hgpr regs []
  simp only [List.append_nil] at hregs
  rw [writeRandomRegdata, List.append_assoc, List.append_assoc, run_flatMap hfp, hfold, scatter_regs,
    run_writeFpc, hfpc]
  split_ifs with hvalid
  · rw [hregs, foldl_setGpr, scatter_regs, run]
    rfl
  · rfl

/-- The context of a processor that has stopped; the rest of it is as it may be. -/
def Cpu.context (s : Cpu Rest) (pswMask pswAddr : BitVec 64) (mem : S390x.Mem) : S390x.Ucontext where
  pswMask := pswMask
  pswAddr := pswAddr
  gregs := fun i => s.gpr (BitVec.ofNat 4 i)
  fpc := s.fpc
  fprs := fun i => s.fpr (BitVec.ofNat 4 i)
  mem := mem

/-- **Behind the set-up two processors compare equal**, whatever was in their registers before and wherever
their images are. -/
theorem setup_agrees {d : Draws} {s s' t t' : Cpu Rest} (h : run valid (writeRandomRegdata d) s = some t)
    (h' : run valid (writeRandomRegdata d) s' = some t') (start start' offset : BitVec 64)
    (mask mask' addr addr' : BitVec 64) (mem mem' : S390x.Mem) :
    S390x.reginfoIsEq (S390x.reginfoInit start (t.context mask addr mem) (start + offset))
      (S390x.reginfoInit start' (t'.context mask' addr' mem') (start' + offset)) = true := by
  have ht : t = d.cpu s.rest ∧ t' = d.cpu s'.rest := by
    rw [run_writeRandomRegdata] at h h'
    split_ifs at h h' with hvalid
    exact ⟨(Option.some.inj h).symm, (Option.some.inj h').symm⟩
  have hoffset (a : BitVec 64) : a + offset - a = offset := by
    rw [BitVec.add_comm, BitVec.add_sub_cancel]
  rw [ht.1, ht.2]
  simp [S390x.reginfoIsEq, S390x.reginfoInit, Cpu.context, Draws.cpu, hoffset]

/-- Zeros for random values. -/
def zeros : Draws := ⟨fun _ => 0, 0, fun _ => 0, fun _ => 0⟩

/-- The set-up with zeros, from registers of ones and from registers of twos. -/
theorem setup_agrees_zeros :
    ∃ t t' : Cpu Unit,
      run (fun _ => true) (writeRandomRegdata zeros) ⟨fun _ => 1, fun _ => 1, 1, ()⟩ = some t ∧
      run (fun _ => true) (writeRandomRegdata zeros) ⟨fun _ => 2, fun _ => 2, 2, ()⟩ = some t' ∧
      S390x.reginfoIsEq (S390x.reginfoInit 0 (t.context 0 4 fun _ => 0) (0 + 0))
        (S390x.reginfoInit 4096 (t'.context 0 4100 fun _ => 0) (4096 + 0)) = true := by
  have hrun (s : Cpu Unit) : run (fun _ => true) (writeRandomRegdata zeros) s = some (zeros.cpu ()) :=
    run_writeRandomRegdata zeros s
  exact ⟨_, _, hrun _, hrun _, setup_agrees (hrun ⟨fun _ => 1, fun _ => 1, 1, ()⟩)
    (hrun ⟨fun _ => 2, fun _ => 2, 2, ()⟩) 0 4096 0 0 0 4 4100 _ _⟩

end Risu.Gen.S390x
