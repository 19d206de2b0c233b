import Mathlib.Data.List.GetD
import Risu.I386.Reginfo

/-!
# The XSAVE area of a signal frame (`reginfo_init` on x86_64)

`xsave_feature_buf` is given the mask of a component, and passes it to CPUID where the number of the
component belongs.

* `component`, `Env.expected` — a component as it is recorded, and as CPUID says it is in the frame;
* `Faithful` — the recorded components are those of the frame;
* `faithful_iff` — this is so exactly when CPUID answers the same for the mask and for the number.
-/

namespace Risu.I386

open Lib

/-! ### Components -/

/-- The bytes of a component that are recorded. -/
def Component.size : Component → ℕ
  | avx => 16 * 16
  | opmask => 8 * 8
  | zmmHi256 => 16 * 32
  | hi16Zmm => 16 * 64

/-- The bytes of a component in a record. -/
def Reginfo.component (ri : Reginfo .x86_64) : (c : Component) → Fin c.size → Byte
  | .avx, ⟨t, ht⟩ =>
    ri.vregs ⟨t / 16, by simp only [Component.size] at ht; simp only [Build.vregs]; omega⟩
      ⟨16 + t % 16, by omega⟩
  | .opmask, ⟨t, ht⟩ =>
    ri.kregs ⟨t / 8, by simp only [Component.size] at ht; omega⟩ ⟨t % 8, by omega⟩
  | .zmmHi256, ⟨t, ht⟩ =>
    ri.vregs ⟨t / 32, by simp only [Component.size] at ht; simp only [Build.vregs]; omega⟩
      ⟨32 + t % 32, by omega⟩
  | .hi16Zmm, ⟨t, ht⟩ =>
    ri.vregs ⟨16 + t / 64, by simp only [Component.size] at ht; simp only [Build.vregs]; omega⟩
      ⟨t % 64, by omega⟩

variable {e : Env .x86_64} {fp : Fpstate} {ri ri' : Reginfo .x86_64}

/-- A component, copied from an offset. -/
theorem addComponent_self {c : Component} (hc : has (features e fp) c = true)
    (h : ri.addComponent e fp c = some ri') :
    ∃ buf, xsaveFeatureBuf e fp (c.xfeat.setWidth 32) = some buf ∧
      ∀ t : Fin c.size, ri'.component c t = fp (buf + t) := by
  rw [Reginfo.addComponent, if_pos hc, Option.map_eq_some_iff] at h
  obtain ⟨buf, hbuf, rfl⟩ := h
  refine ⟨buf, hbuf, ?_⟩
  rintro ⟨t, ht⟩
  cases c with
  | avx =>
    have hlt : t < 16 * 16 := ht
    have hcopied : 0 ≤ t / 16 ∧ t / 16 < 0 + 16 ∧ 16 ≤ 16 + t % 16 ∧ 16 + t % 16 < 16 + 16 := by omega
    have hpos : buf + 16 * (t / 16 - 0) + (16 + t % 16 - 16) = buf + t := by omega
    exact (if_pos hcopied).trans (congrArg fp hpos)
  | opmask => exact congrArg fp (show buf + 8 * (t / 8) + t % 8 = buf + t by omega)
  | zmmHi256 =>
    have hlt : t < 16 * 32 := ht
    have hcopied : 0 ≤ t / 32 ∧ t / 32 < 0 + 16 ∧ 32 ≤ 32 + t % 32 ∧ 32 + t % 32 < 32 + 32 := by omega
    have hpos : buf + 32 * (t / 32 - 0) + (32 + t % 32 - 32) = buf + t := by omega
    exact (if_pos hcopied).trans (congrArg fp hpos)
  | hi16Zmm =>
    have hlt : t < 16 * 64 := ht
    have hcopied : 16 ≤ 16 + t / 64 ∧ 16 + t / 64 < 16 + 16 ∧ 0 ≤ t % 64 ∧ t % 64 < 0 + 64 := by omega
    have hpos : buf + 64 * (16 + t / 64 - 16) + (t % 64 - 0) = buf + t := by omega
    exact (if_pos hcopied).trans (congrArg fp hpos)

/-- The other components stay. -/
theorem addComponent_other {c c' : Component} (hne : c' ≠ c) (h : ri.addComponent e fp c = some ri')
    (t : Fin c'.size) : ri'.component c' t = ri.component c' t := by
  rw [Reginfo.addComponent] at h
  split at h
  · rw [Option.map_eq_some_iff] at h
    obtain ⟨buf, hbuf, rfl⟩ := h
    obtain ⟨t, ht⟩ := t
    -- the copies go to bytes 16 to 31 or 32 to 63 of the low registers, or to the high registers
    cases c <;> cases c' <;> first | exact absurd rfl hne | rfl | skip
    · exact if_neg (by dsimp only; omega)
    · exact if_neg (by dsimp only [Build.nvecregs]; omega)
    · exact if_neg (by dsimp only; omega)
    · exact if_neg (by dsimp only [Build.nvecregs]; omega)
    · have hlt : t < 16 * 16 := ht
      exact if_neg (by dsimp only; omega)
    · have hlt : t < 16 * 32 := ht
      exact if_neg (by dsimp only; omega)
  · cases h
    rfl

/-- The copies succeed if the offsets are found. -/
theorem addComponents_isSome {l : List Component}
    (h : ∀ c ∈ l, has (features e fp) c = true → (xsaveFeatureBuf e fp (c.xfeat.setWidth 32)).isSome)
    (ri : Reginfo .x86_64) : (ri.addComponents e fp l).isSome := by
  induction l generalizing ri with
  | nil => rfl
  | cons c l ih =>
    obtain ⟨ri', hri'⟩ : ∃ ri', ri.addComponent e fp c = some ri' := by
      rw [Reginfo.addComponent]
      split
      · next hc =>
        obtain ⟨buf, hbuf⟩ := Option.isSome_iff_exists.mp (h c List.mem_cons_self hc)
        exact ⟨_, by rw [hbuf]; rfl⟩
      · exact ⟨ri, rfl⟩
    rw [Reginfo.addComponents, List.foldlM_cons, hri']
    exact ih (fun c' hc' => h c' (List.mem_cons_of_mem c hc')) ri'

theorem addComponents_other {l : List Component} {c : Component} (hc : c ∉ l)
    (h : ri.addComponents e fp l = some ri') (t : Fin c.size) :
    ri'.component c t = ri.component c t := by
  induction l generalizing ri with
  | nil => cases h; rfl
  | cons c' l ih =>
    rw [Reginfo.addComponents, List.foldlM_cons, Option.bind_eq_bind, Option.bind_eq_some_iff] at h
    obtain ⟨ri₁, h₁, h⟩ := h
    rw [List.mem_cons, not_or] at hc
    rw [ih hc.2 h, addComponent_other hc.1 h₁]

/-- Each component that is copied is in the record at the end. -/
theorem addComponents_self {l : List Component} (hl : l.Nodup) {c : Component} (hc : c ∈ l)
    (hw : has (features e fp) c = true)
    (h : ri.addComponents e fp l = some ri') :
    ∃ buf, xsaveFeatureBuf e fp (c.xfeat.setWidth 32) = some buf ∧
      ∀ t : Fin c.size, ri'.component c t = fp (buf + t) := by
  induction l generalizing ri with
  | nil => cases hc
  | cons c' l ih =>
    rw [Reginfo.addComponents, List.foldlM_cons, Option.bind_eq_bind, Option.bind_eq_some_iff] at h
    obtain ⟨ri₁, h₁, h⟩ := h
    rw [List.nodup_cons] at hl
    rcases List.mem_cons.mp hc with rfl | hc
    · obtain ⟨buf, hbuf, hcopy⟩ := addComponent_self hw h₁
      exact ⟨buf, hbuf, fun t => (addComponents_other hl.1 h t).trans (hcopy t)⟩
    · exact ih hl.2 hc h

/-! ### Frames -/

theorem has_eq_getLsbD (f : BitVec 64) (c : Component) : has f c = f.getLsbD c.number := by
  have hxfeat : c.xfeat = BitVec.twoPow 64 c.number := rfl
  rw [has, hxfeat, BitVec.and_twoPow]
  cases f.getLsbD c.number <;> cases c <;> decide

theorem has_and (f g : BitVec 64) (c : Component) : has (f &&& g) c = (has f c && has g c) := by
  simp only [has_eq_getLsbD, BitVec.getLsbD_and]

/-- The offset of a component, by its number. -/
def Env.offset (e : Env .x86_64) (c : Component) : ℕ :=
  (e.cpuid (BitVec.ofNat 32 c.number)).2.toNat

/-- The end of a component, as `xsave_feature_buf` computes it. -/
def Env.extent (e : Env .x86_64) (leaf : BitVec 32) : BitVec 32 := (e.cpuid leaf).1 + (e.cpuid leaf).2

theorem xsaveFeatureBuf_eq_some {leaf : BitVec 32} {buf : ℕ} :
    xsaveFeatureBuf e fp leaf = some buf ↔
      e.extent leaf ≤ extendedSize .x86_64 fp ∧ (e.cpuid leaf).2.toNat = buf := by
  show (if e.extent leaf ≤ extendedSize .x86_64 fp then some (e.cpuid leaf).2.toNat else none) = _ ↔ _
  rw [Option.ite_none_right_eq_some, Option.some_inj]

/-- An XSAVE frame: it has room for the components that are present. -/
structure IsFrame (e : Env .x86_64) (fp : Fpstate) : Prop where
  xsave : isXsave .x86_64 fp = true
  room : ∀ c, has (hdrXfeatures .x86_64 fp) c = true →
    e.extent (BitVec.ofNat 32 c.number) ≤ extendedSize .x86_64 fp

/-- The components that are requested and present are those of the frame. -/
structure Faithful (e : Env .x86_64) : Prop where
  copies : ∀ (u : Context .x86_64) (fp : Fpstate), u.fpregs = some fp → IsFrame e fp →
    ∃ ri, reginfoInit e u = some ri ∧
      ∀ c, has e.xfeatures c = true → has (hdrXfeatures .x86_64 fp) c = true →
        ∀ t : Fin c.size, ri.component c t = fp (e.offset c + t)
  distinguishes : ∀ (u u' : Context .x86_64) (fp fp' : Fpstate) (c : Component),
    u.fpregs = some fp → u'.fpregs = some fp' → IsFrame e fp → IsFrame e fp' →
    has e.xfeatures c = true → has (hdrXfeatures .x86_64 fp) c = true →
    has (hdrXfeatures .x86_64 fp') c = true →
    (∃ t : Fin c.size, fp (e.offset c + t) ≠ fp' (e.offset c + t)) →
    ∃ ri ri', reginfoInit e u = some ri ∧ reginfoInit e u' = some ri' ∧ reginfoIsEq ri ri' = false

/-- CPUID answers for the mask of a component as for its number. -/
def Agrees (e : Env .x86_64) (c : Component) : Prop :=
  (e.cpuid (c.xfeat.setWidth 32)).2 = (e.cpuid (BitVec.ofNat 32 c.number)).2 ∧
    e.extent (c.xfeat.setWidth 32) ≤ e.extent (BitVec.ofNat 32 c.number)

theorem mem_components (c : Component) : c ∈ Build.x86_64.components := by
  cases c <;> decide

/-- The record of an XSAVE frame. -/
theorem reginfoInit_xsave {u : Context .x86_64} (hu : u.fpregs = some fp)
    (hx : isXsave .x86_64 fp = true) :
    ∃ ri : Reginfo .x86_64, reginfoInit e u = ri.addComponents e fp Build.x86_64.components := by
  rw [reginfoInit, hu]
  exact ⟨_, if_pos hx⟩

/-- What a record has of a component that is copied. -/
theorem component_reginfoInit {u : Context .x86_64} {c : Component} (hu : u.fpregs = some fp)
    (hx : isXsave .x86_64 fp = true) (hreq : has e.xfeatures c = true)
    (hpres : has (hdrXfeatures .x86_64 fp) c = true) (h : reginfoInit e u = some ri) :
    e.extent (c.xfeat.setWidth 32) ≤ extendedSize .x86_64 fp ∧
      ∀ t : Fin c.size, ri.component c t = fp ((e.cpuid (c.xfeat.setWidth 32)).2.toNat + t) := by
  obtain ⟨ri₀, hri₀⟩ := @reginfoInit_xsave e fp u hu hx
  have hc : has (features e fp) c = true := by rw [features, has_and, hreq, hpres]; rfl
  obtain ⟨buf, hbuf, hcopy⟩ :=
    addComponents_self (by decide) (mem_components c) hc (hri₀.symm.trans h)
  obtain ⟨hroom, rfl⟩ := xsaveFeatureBuf_eq_some.mp hbuf
  exact ⟨hroom, hcopy⟩

/-- If CPUID agrees on what is requested, the copies are made. -/
theorem reginfoInit_isSome (hagree : ∀ c, has e.xfeatures c = true → Agrees e c) {u : Context .x86_64}
    (hu : u.fpregs = some fp) (hfr : IsFrame e fp) : ∃ ri, reginfoInit e u = some ri := by
  obtain ⟨ri₀, hri₀⟩ := @reginfoInit_xsave e fp u hu hfr.xsave
  rw [hri₀, ← Option.isSome_iff_exists]
  refine addComponents_isSome (fun c _ hc => ?_) ri₀
  rw [features, has_and, Bool.and_eq_true] at hc
  have hroom : e.extent (c.xfeat.setWidth 32) ≤ extendedSize .x86_64 fp :=
    BitVec.le_trans (hagree c hc.1).2 (hfr.room c hc.2)
  exact Option.isSome_iff_exists.mpr ⟨_, xsaveFeatureBuf_eq_some.mpr ⟨hroom, rfl⟩⟩

theorem Faithful.of_agrees (hagree : ∀ c, has e.xfeatures c = true → Agrees e c) : Faithful e := by
  have hcopies : ∀ (u : Context .x86_64) (fp : Fpstate), u.fpregs = some fp → IsFrame e fp →
      ∃ ri, reginfoInit e u = some ri ∧
        ∀ c, has e.xfeatures c = true → has (hdrXfeatures .x86_64 fp) c = true →
          ∀ t : Fin c.size, ri.component c t = fp (e.offset c + t) := by
    intro u fp hu hfr
    obtain ⟨ri, hri⟩ := reginfoInit_isSome hagree hu hfr
    refine ⟨ri, hri, fun c hreq hpres t => ?_⟩
    rw [(component_reginfoInit hu hfr.xsave hreq hpres hri).2 t, (hagree c hreq).1, Env.offset]
  refine ⟨hcopies, fun u u' fp fp' c hu hu' hfr hfr' hreq hpres hpres' ⟨t, hne⟩ => ?_⟩
  obtain ⟨ri, hri, hc⟩ := hcopies u fp hu hfr
  obtain ⟨ri', hri', hc'⟩ := hcopies u' fp' hu' hfr'
  refine ⟨ri, ri', hri, hri', ?_⟩
  rw [reginfoIsEq, decide_eq_false_iff_not]
  rintro rfl
  exact hne ((hc c hreq hpres t).symm.trans (hc' c hreq hpres' t))

/-! ### A frame with one component -/

theorem read_append (l₁ l₂ l₃ : List Byte) :
    read (fun i => (l₁ ++ l₂ ++ l₃).getD i 0) l₁.length l₂.length = valueOf .little l₂ := by
  rw [read]
  congr 1
  apply List.ext_getElem (by simp)
  intro i hi hi'
  rw [List.getElem_map, List.getElem_range, List.append_assoc, List.getD_append_right _ _ _ _ (by omega),
    Nat.add_sub_cancel_left, List.getD_append _ _ _ _ hi', List.getD_eq_getElem _ _ hi']

theorem read_update {i off len : ℕ} (h : i < off ∨ off + len ≤ i) (fp : Fpstate) (v : Byte) :
    read (Function.update fp i v) off len = read fp off len := by
  rw [read, read]
  congr 1
  apply List.map_congr_left
  intro j hj
  rw [List.mem_range] at hj
  have hne : off + j ≠ i := by omega
  exact Function.update_of_ne hne v fp

/-- The bytes of a frame: the fields that are read, and what stands between them. -/
def fields (z magic size z' feat : List Byte) : Fpstate := fun i => (z ++ magic ++ size ++ z' ++ feat).getD i 0

theorem read_fields {z magic size z' feat : List Byte} (hz : z.length = 464) (hm : magic.length = 4)
    (hs : size.length = 4) (hz' : z'.length = 40) (hf : feat.length = 8) :
    read (fields z magic size z' feat) 464 4 = valueOf .little magic ∧
      read (fields z magic size z' feat) 468 4 = valueOf .little size ∧
      read (fields z magic size z' feat) 512 8 = valueOf .little feat := by
  have h₁ := read_append z magic (size ++ z' ++ feat)
  have h₂ := read_append (z ++ magic) size (z' ++ feat)
  have h₃ := read_append (z ++ magic ++ size ++ z') feat []
  simp only [List.length_append, hz, hm, hs, hz', hf, List.append_nil, ← List.append_assoc] at h₁ h₂ h₃
  exact ⟨h₁, h₂, h₃⟩

/-- A frame with one component, and just enough room for it. -/
def oneComponent (e : Env .x86_64) (c : Component) : Fpstate :=
  fields (List.replicate 464 0) (leBytes 4 fpXstateMagic1)
    (leBytes 4 (e.extent (BitVec.ofNat 32 c.number)).toNat) (List.replicate 40 0)
    (leBytes 8 c.xfeat.toNat)

theorem read_oneComponent (e : Env .x86_64) (c : Component) :
    read (oneComponent e c) 464 4 = valueOf .little (leBytes 4 fpXstateMagic1) ∧
      read (oneComponent e c) 468 4 =
        valueOf .little (leBytes 4 (e.extent (BitVec.ofNat 32 c.number)).toNat) ∧
      read (oneComponent e c) 512 8 = valueOf .little (leBytes 8 c.xfeat.toNat) :=
  read_fields List.length_replicate (leBytes_length _ _) (leBytes_length _ _) List.length_replicate
    (leBytes_length _ _)

/-- A byte outside the fields that are read. -/
def Free (i : ℕ) : Prop := (i < 464 ∨ 472 ≤ i) ∧ (i < 512 ∨ 520 ≤ i)

/-- The frame with one component, whatever a free byte is. -/
theorem oneComponent_frame (e : Env .x86_64) (c : Component) {i : ℕ} (hi : Free i) (v : Byte) :
    hdrXfeatures .x86_64 (Function.update (oneComponent e c) i v) = c.xfeat ∧
      extendedSize .x86_64 (Function.update (oneComponent e c) i v) =
        e.extent (BitVec.ofNat 32 c.number) ∧
      IsFrame e (Function.update (oneComponent e c) i v) := by
  obtain ⟨hmagic, hsize, hfeat⟩ := read_oneComponent e c
  obtain ⟨hlow, hhigh⟩ := hi
  have hx : hdrXfeatures .x86_64 (Function.update (oneComponent e c) i v) = c.xfeat := by
    rw [hdrXfeatures, Build.hdrOffset, read_update hhigh, hfeat]
    exact ofNat_valueOf_bytesOf .little 8 _
  have hext : extendedSize .x86_64 (Function.update (oneComponent e c) i v) =
      e.extent (BitVec.ofNat 32 c.number) := by
    rw [extendedSize, Build.swOffset, read_update (by omega), hsize]
    exact ofNat_valueOf_bytesOf .little 4 _
  refine ⟨hx, hext, ⟨?_, fun c' hc' => ?_⟩⟩
  · rw [isXsave, Build.swOffset, read_update (by omega), hmagic]
    rfl
  · have hcc : c' = c := by
      rw [hx] at hc'
      revert hc'
      cases c <;> cases c' <;> decide
    rw [hcc, hext]
    exact BitVec.le_refl _

theorem exists_free (c : Component) (p : ℕ) : ∃ t : Fin c.size, Free (p + t) := by
  have hsize : 64 ≤ c.size := by cases c <;> decide
  by_cases hp : Free p
  · exact ⟨⟨0, by omega⟩, hp⟩
  · refine ⟨⟨8, by omega⟩, ?_⟩
    rw [Free] at hp
    show (p + 8 < 464 ∨ 472 ≤ p + 8) ∧ (p + 8 < 512 ∨ 520 ≤ p + 8)
    omega

/-- A signal frame with the given floating-point state. -/
def contextOf (fp : Fpstate) : Context .x86_64 := ⟨fun _ => 0, 0, some fp⟩

/-- Where the records are faithful, CPUID agrees. -/
theorem Faithful.agrees (h : Faithful e) {c : Component} (hreq : has e.xfeatures c = true) : Agrees e c := by
  -- a frame that differs from the mask's place to the component's, in one byte
  obtain ⟨t, ht⟩ := exists_free c (e.offset c)
  set q := (e.cpuid (c.xfeat.setWidth 32)).2.toNat with hq
  obtain ⟨hx, hext, hfr⟩ := oneComponent_frame e c ht (oneComponent e c (q + t) + 1)
  set fp := Function.update (oneComponent e c) (e.offset c + t) (oneComponent e c (q + t) + 1) with hfp
  have hpres : has (hdrXfeatures .x86_64 fp) c = true := by
    rw [hx]
    cases c <;> decide
  obtain ⟨ri, hri, hcopy⟩ := h.copies (contextOf fp) fp rfl hfr
  obtain ⟨hroom, hread⟩ := component_reginfoInit rfl hfr.xsave hreq hpres hri
  rw [hext] at hroom
  refine ⟨?_, hroom⟩
  by_contra hne
  have hpq : q + t ≠ e.offset c + t := by
    intro heq
    exact hne (BitVec.eq_of_toNat_eq (Nat.add_right_cancel heq))
  have hbyte : fp (q + t) = fp (e.offset c + t) := (hread t).symm.trans (hcopy c hreq hpres t)
  rw [hfp, Function.update_self, Function.update_of_ne hpq] at hbyte
  exact absurd hbyte.symm (by generalize oneComponent e c (q + t) = v; revert v; decide)

/-- **The requested components are captured if and only if CPUID answers for their masks as for
their numbers.** -/
theorem faithful_iff (e : Env .x86_64) :
    Faithful e ↔ ∀ c, has e.xfeatures c = true → Agrees e c :=
  ⟨fun h _ hreq => h.agrees hreq, Faithful.of_agrees⟩

/-- A processor with AVX: component 2 has 256 bytes at offset 576, and there is no component 4. -/
def avxOnly : Env .x86_64 where
  imageStartAddress := 0
  xfeatures := 7
  cpuid := fun n => if n = 2 then (256, 576) else (0, 0)

/-- **The AVX state is not captured.** -/
theorem not_faithful_avxOnly : ¬Faithful avxOnly := by
  intro h
  have hagree : Agrees avxOnly .avx := h.agrees (by decide)
  exact absurd hagree.1 (by decide)

end Risu.I386
