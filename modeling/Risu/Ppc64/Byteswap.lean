import Risu.Ppc64.Port
import Risu.Record

/-!
# Headers and records without built-ins (`byte_swap_header`, `reginfo_swap`)

* `Byteswap.reginfo` — `reginfo_swap` with the macros of a build;
* `SwapsHeader`, `SwapsReginfo` — swapped as the built-ins do, there and back;
* `fallback_faithful_iff` — where the macros reverse the bytes.
-/

namespace Risu

open Lib

namespace Byteswap

variable (M : Byteswap) {ul : ℕ}

/-- `reginfo_swap` -/
def reginfo {w : ℕ} (r : Ppc64.Reginfo w 0) : Ppc64.Reginfo w 0 where
  secondPrevInsn := M.swap32 false r.secondPrevInsn
  prevInsn := M.swap32 false r.prevInsn
  faultingInsn := M.swap32 false r.faultingInsn
  nextInsn := M.swap32 false r.nextInsn
  nip := M.swap32 false r.nip
  gregs := fun j => M.reg (r.gregs j)
  fpregs := fun i => M.swap64 (r.fpregs i)
  fpscr := M.reg r.fpscr
  vrregs := r.vrregs

/-! ### Headers and records -/

theorem reginfo_builtin (b : Ppc64.Build) (r : Ppc64.Reginfo b.width 0) :
    builtin.reginfo r = b.reginfoSwap r := by
  have hreg (x : BitVec (8 * b.ptrBytes)) : builtin.reg x = swapVec b.ptrBytes x := reg_builtin b.ptrBytes_eq x
  rw [reginfo, Ppc64.Build.reginfoSwap]
  simp only [hreg]
  rfl

theorem header_fallback_iff (hul : 32 ≤ ul) {A : Arch} (h : Header A) :
    (fallback ul).header h = reverseHeader h ↔
      PlainSign h.risuOp ∧ (8 * A.ptrBytes = 64 → Outer (h.pc.setWidth 64)) := by
  rw [← header_builtin, header, header, Header.mk.injEq, fallback32_unsigned hul, fallback32_unsigned hul,
    reg_fallback_iff hul, ← fallback32_signed_iff hul]
  exact ⟨fun h => ⟨h.2.2.1, h.2.2.2⟩, fun h => ⟨rfl, rfl, h.1, h.2⟩⟩

theorem reginfo_fallback_iff (hul : 32 ≤ ul) (b : Ppc64.Build) (r : Ppc64.Reginfo b.width 0) :
    (fallback ul).reginfo r = b.reginfoSwap r ↔ (∀ i, Outer (r.fpregs i)) ∧
      (8 * b.ptrBytes = 64 → (∀ j, Outer ((r.gregs j).setWidth 64)) ∧ Outer (r.fpscr.setWidth 64)) := by
  have hgregs : (fun j => (fallback ul).reg (r.gregs j)) = (fun j => builtin.reg (r.gregs j)) ↔
      ∀ j, 8 * b.ptrBytes = 64 → Outer ((r.gregs j).setWidth 64) :=
    funext_iff.trans (forall_congr' fun j => reg_fallback_iff hul (r.gregs j))
  have hfpregs : (fun i => (fallback ul).swap64 (r.fpregs i)) = (fun i => builtin.swap64 (r.fpregs i)) ↔
      ∀ i, Outer (r.fpregs i) :=
    funext_iff.trans (forall_congr' fun i => fallback64_iff (r.fpregs i))
  rw [← reginfo_builtin, reginfo, reginfo, Ppc64.Reginfo.mk.injEq, fallback32_unsigned hul,
    fallback32_unsigned hul, fallback32_unsigned hul, fallback32_unsigned hul, fallback32_unsigned hul,
    hgregs, hfpregs, reg_fallback_iff hul]
  constructor
  · rintro ⟨-, -, -, -, -, hg, hf, hs, -⟩
    exact ⟨hf, fun hw => ⟨fun j => hg j hw, hs hw⟩⟩
  · rintro ⟨hf, hw⟩
    exact ⟨rfl, rfl, rfl, rfl, rfl, fun j h => (hw h).1 j, hf, fun h => (hw h).2, rfl⟩

/-- A header, or a record, that the fallback swaps as the built-ins do, there and back. -/
def SwapsHeader {A : Arch} (h : Header A) : Prop :=
  M.header h = reverseHeader h ∧ M.header (M.header h) = h

def SwapsReginfo (b : Ppc64.Build) (r : Ppc64.Reginfo b.width 0) : Prop :=
  M.reginfo r = b.reginfoSwap r ∧ M.reginfo (M.reginfo r) = r

theorem swapsHeader_iff (hul : 32 ≤ ul) {A : Arch} (h : Header A) :
    (fallback ul).SwapsHeader h ↔ PlainSign h.risuOp ∧ PlainSign (swapVec 4 h.risuOp) ∧
      (8 * A.ptrBytes = 64 → Outer (h.pc.setWidth 64)) := by
  constructor
  · rintro ⟨hagree, hback⟩
    rw [hagree] at hback
    have hback' : (fallback ul).header (reverseHeader h) = reverseHeader (reverseHeader h) :=
      hback.trans (reverseHeader_reverseHeader h).symm
    obtain ⟨hop, hpc⟩ := (header_fallback_iff hul h).mp hagree
    exact ⟨hop, ((header_fallback_iff hul _).mp hback').1, hpc⟩
  · rintro ⟨hop, hop', hpc⟩
    have hagree := (header_fallback_iff hul h).mpr ⟨hop, hpc⟩
    refine ⟨hagree, ?_⟩
    have hpc' : 8 * A.ptrBytes = 64 → Outer ((reverseHeader h).pc.setWidth 64) := by
      rw [← header_builtin]
      exact outer_reg_builtin A.ptrBytes_eq hpc
    rw [hagree, (header_fallback_iff hul (reverseHeader h)).mpr ⟨hop', hpc'⟩]
    exact reverseHeader_reverseHeader h

theorem swapsReginfo_iff (hul : 32 ≤ ul) (b : Ppc64.Build) (r : Ppc64.Reginfo b.width 0) :
    (fallback ul).SwapsReginfo b r ↔ (∀ i, Outer (r.fpregs i)) ∧
      (8 * b.ptrBytes = 64 → (∀ j, Outer ((r.gregs j).setWidth 64)) ∧ Outer (r.fpscr.setWidth 64)) := by
  refine ⟨fun h => (reginfo_fallback_iff hul b r).mp h.1, fun hr => ?_⟩
  have hagree := (reginfo_fallback_iff hul b r).mpr hr
  refine ⟨hagree, ?_⟩
  obtain ⟨hf, hw⟩ := hr
  have hback : (∀ i, Outer ((b.reginfoSwap r).fpregs i)) ∧ (8 * b.ptrBytes = 64 →
      (∀ j, Outer (((b.reginfoSwap r).gregs j).setWidth 64)) ∧ Outer ((b.reginfoSwap r).fpscr.setWidth 64)) := by
    rw [← reginfo_builtin]
    exact ⟨fun i => outer_swapVec (hf i),
      fun h => ⟨fun j => outer_reg_builtin b.ptrBytes_eq (fun h => (hw h).1 j) h,
        outer_reg_builtin b.ptrBytes_eq (fun h => (hw h).2) h⟩⟩
  rw [hagree, (reginfo_fallback_iff hul b (b.reginfoSwap r)).mpr hback]
  exact b.reginfoSwap_reginfoSwap r

/-- **The fallback reverses bytes** of 16 and of 32 bits, but 64 bits only where the six bytes in the
middle are zero, as its shifts move four bytes each to one place; and `risu_op`, which has a sign, only
where the sign does no harm. -/
theorem fallback_faithful_iff {ul : ℕ} (hul : 32 ≤ ul) :
    (∀ x, (fallback ul).swap16 x = swapVec 2 x) ∧
      (∀ x, (fallback ul).swap32 false x = swapVec 4 x) ∧
      (∀ x, (fallback ul).swap64 x = swapVec 8 x ↔ Outer x) ∧
      (∀ (A : Arch) (h : Header A), (fallback ul).SwapsHeader h ↔
        PlainSign h.risuOp ∧ PlainSign (swapVec 4 h.risuOp) ∧
          (8 * A.ptrBytes = 64 → Outer (h.pc.setWidth 64))) ∧
      ∀ (b : Ppc64.Build) (r : Ppc64.Reginfo b.width 0), (fallback ul).SwapsReginfo b r ↔
        (∀ i, Outer (r.fpregs i)) ∧ (8 * b.ptrBytes = 64 →
          (∀ j, Outer ((r.gregs j).setWidth 64)) ∧ Outer (r.fpscr.setWidth 64)) :=
  ⟨fallback16 hul, fallback32_unsigned hul, fallback64_iff, fun _ => swapsHeader_iff hul,
    swapsReginfo_iff hul⟩

theorem fallback_faithful_64 : (fallback 64).swap16 0x0102 = 0x0201 ∧
    (fallback 64).swap64 0x0100000000000002 = swapVec 8 0x0100000000000002 := by
  have hul : 32 ≤ 64 := by decide
  have houter : ∀ i < 56, 8 ≤ i → BitVec.getLsbD 0x0100000000000002#64 i = false := by decide
  exact ⟨((fallback_faithful_iff hul).1 0x0102).trans (by decide),
    ((fallback_faithful_iff hul).2.2.1 _).mpr fun i h8 h56 => houter i h56 h8⟩

/-- The second byte of a number of 64 bits goes to the highest place. -/
theorem not_fallback_faithful : ¬∀ x, (fallback 64).swap64 x = swapVec 8 x := by
  intro h
  have hbit := (@fallback64_iff 64 0x0100).mp (h 0x0100) 8 le_rfl (by decide)
  exact absurd hbit (by decide)

end Byteswap

end Risu
