import Risu.I386.Mismatch
import Risu.Aarch64.Mismatch
import Risu.Arm.Mismatch
import Risu.Loongarch64.Mismatch
import Risu.M68k.Reginfo
import Risu.S390x.Reginfo

/-!
# Mismatches and their reports

A comparison that fails is followed by a report.  On i386 and aarch64 the comparison is over the whole
record, and the report over a list of fields; on arm, m68k, s390x and loongarch64 a report covers what
the comparison covers.

* `mismatch_explained_iff` — when a report of the first kind has a line of detail;
* `mismatch_unexplained` — records that differ, and a report without one;
* `reports_cover` — a comparison of the second kind fails if and only if the report has a line of
  detail.
-/

namespace Risu

/-- **A mismatch is explained if and only if it is not confined to what the report leaves out**: the
faulting instruction and some bytes of the registers 16 to 31 on i386 and x86_64, the fault address on
aarch64. -/
theorem mismatch_explained_iff {b : I386.Build} {m a : I386.Reginfo b} {m' a' : Aarch64.Reginfo}
    (hm : I386.Produced m) (ha : I386.Produced a) (hm' : Aarch64.Produced m') (ha' : Aarch64.Produced a') :
    (I386.Explained m a ↔ ¬I386.OnlyHidden m a) ∧
      (Aarch64.Explained m' a' ↔ ¬Aarch64.OnlyFaultAddress m' a') :=
  ⟨I386.explained_iff_i386 hm ha, Aarch64.explained_iff_aarch64 hm' ha'⟩

namespace I386

/-- A frame without floating-point state, at an instruction. -/
def frameOf (insn : BitVec 32) (r : BitVec 64) : Context .x86_64 := ⟨fun _ => r, insn, none⟩

/-- SSE only, as is the default. -/
def sseOnly : Env .x86_64 := ⟨0, 3, fun _ => (0, 0)⟩

/-- The record of such a frame. -/
def recordOf (insn : BitVec 32) (r : BitVec 64) : Reginfo .x86_64 :=
  ⟨insn, 0, 3, fun i => recordGreg sseOnly i r, fun _ _ => 0, fun _ _ => 0⟩

theorem produced_recordOf (insn : BitVec 32) (r : BitVec 64) : Produced (recordOf insn r) :=
  ⟨sseOnly, frameOf insn r, rfl⟩

theorem onlyHidden_recordOf {x y : BitVec 32} (h : x ≠ y) (r : BitVec 64) :
    OnlyHidden (recordOf x r) (recordOf y r) where
  ne := fun heq => h (congrArg Reginfo.faultingInsn heq)
  mxcsr := rfl
  xfeatures := rfl
  gregs := rfl
  kregs := rfl
  vregs := fun _ _ hne => absurd rfl hne

end I386

namespace Aarch64

/-- A frame with an FP/SIMD record, after a fault at an address. -/
def faultAt (faultAddress : BitVec 64) : Frame where
  regs := fun _ => 0
  faultAddress := faultAddress
  pc := 0
  pstate := 0
  mem := fun a => (Lib.leBytes 4 fpsimdMagic.toNat ++ Lib.leBytes 4 528).getD (a - 4096).toNat 0
  reserved := 4096
  records := ⟨4096, 0, 0⟩
  turns := 3
  walked := by decide +kernel

/-- Without SVE, as is the default; the image is at an address. -/
def noSve (start : BitVec 64) : Env := ⟨start, 0, by decide⟩

theorem produced_faultAt (start fault : BitVec 64) :
    Produced (reginfoInit (noSve start) (faultAt fault)) :=
  ⟨noSve start, faultAt fault, rfl⟩

/-- The fault address goes into the record as it is, and nothing else depends on it. -/
theorem reginfoInit_faultAddress (e : Env) (u : Frame) (fault : BitVec 64) :
    reginfoInit e { u with faultAddress := fault } =
      { reginfoInit e u with faultAddress := fault } := by
  simp only [reginfoInit]
  split_ifs <;> rfl

theorem onlyFaultAddress_faultAt {x y : BitVec 64} (h : x ≠ y) :
    OnlyFaultAddress (reginfoInit (noSve 0) (faultAt x)) (reginfoInit (noSve 0) (faultAt y)) := by
  have hrecord (z : BitVec 64) : reginfoInit (noSve 0) (faultAt z) =
      { reginfoInit (noSve 0) (faultAt 0) with faultAddress := z } :=
    reginfoInit_faultAddress (noSve 0) (faultAt 0) z
  rw [hrecord x, hrecord y]
  exact ⟨h, rfl⟩

end Aarch64

/-- A difference in the general registers is explained, and so is a difference in the pc. -/
theorem mismatch_explained_pc :
    I386.Explained (I386.recordOf 0 0) (I386.recordOf 0 1) ∧
      Aarch64.Explained (Aarch64.reginfoInit (Aarch64.noSve 0) (Aarch64.faultAt 0))
        (Aarch64.reginfoInit (Aarch64.noSve 4) (Aarch64.faultAt 0)) := by
  obtain ⟨hi386, haarch64⟩ := mismatch_explained_iff (I386.produced_recordOf 0 0) (I386.produced_recordOf 0 1)
    (Aarch64.produced_faultAt 0 0) (Aarch64.produced_faultAt 4 0)
  constructor
  · rw [hi386]
    exact fun hid => absurd (congrFun hid.gregs ⟨0, by decide⟩) (by decide)
  · rw [haarch64]
    exact fun hid => absurd (congrArg Aarch64.Reginfo.pc hid.rest) (by decide +kernel)

/-- **A mismatch without explanation**: records that differ in the faulting instruction, and records
that differ in the fault address. -/
theorem mismatch_unexplained :
    (¬∀ (b : I386.Build) (m a : I386.Reginfo b), I386.Produced m → I386.Produced a →
      I386.Explained m a) ∧
    ¬∀ m a : Aarch64.Reginfo, Aarch64.Produced m → Aarch64.Produced a → Aarch64.Explained m a := by
  constructor
  · intro h
    have hex := h .x86_64 _ _ (I386.produced_recordOf 0 0) (I386.produced_recordOf 1 0)
    rw [I386.explained_iff_i386 (I386.produced_recordOf 0 0) (I386.produced_recordOf 1 0)] at hex
    exact hex (I386.onlyHidden_recordOf (by decide) 0)
  · intro h
    have hex := h _ _ (Aarch64.produced_faultAt 0 0) (Aarch64.produced_faultAt 0 1)
    rw [Aarch64.explained_iff_aarch64 (Aarch64.produced_faultAt 0 0) (Aarch64.produced_faultAt 0 1)] at hex
    exact hex (Aarch64.onlyFaultAddress_faultAt (by decide))

/-- **A comparison fails if and only if the report of the two records has a line of detail.**  On
loongarch64, where a report prints no more words of a register than the context of the master had, this
holds of the records that `reginfo_init` makes. -/
theorem reports_cover (m a : Arm.Reginfo) (m₁ a₁ : M68k.Reginfo) (m₂ a₂ : S390x.Reginfo)
    (start start' : BitVec 64) (u u' : Loongarch64.Frame) :
    (Arm.reginfoIsEq m a = false ↔
        ∃ line lines, Arm.reginfoDumpMismatch m a = Arm.heading :: line :: lines) ∧
      (M68k.reginfoIsEq m₁ a₁ = false ↔ M68k.reginfoDumpMismatch m₁ a₁ ≠ []) ∧
      (S390x.reginfoIsEq m₂ a₂ = false ↔ S390x.reginfoDumpMismatch m₂ a₂ ≠ []) ∧
      (Loongarch64.reginfoIsEq (Loongarch64.reginfoInit start u) (Loongarch64.reginfoInit start' u') = false ↔
        ∃ line lines,
          Loongarch64.reginfoDumpMismatch (Loongarch64.reginfoInit start u)
            (Loongarch64.reginfoInit start' u') = Loongarch64.heading :: line :: lines) :=
  ⟨Arm.explained_arm, M68k.explained_m68k, S390x.explained_s390x,
    Loongarch64.explained_loongarch64 ⟨start, u, rfl⟩ ⟨start', u', rfl⟩⟩

end Risu
