import Risu.Trace

/-!
# Traces written by a build that swaps bytes

The build around the emulator on a little-endian host converts headers and register records to
big-endian, so that its traces should be those of a big-endian native build.  `send_register_info`
converts the header in place and then takes the number of payload bytes from the converted header:
444 becomes 3154182144 and 8192 becomes 2097152.  `trace_bytes_eq_iff` shows that the two traces
are equal exactly as long as no payload is written.
-/

namespace Risu.Ppc64

open Lib Lib.Process

/-- The build around the emulator on a little-endian host, with a 32-bit `reg_t`. -/
def dppcLittle (startAddress : BitVec (8 * 4)) (imageSize : ℕ) (findRange : BitVec (8 * 4) → Bool)
    (options : Options) : Build where
  ptrBytes := 4
  order := .little
  dppc := true
  endianswap := .builtin
  startAddress := startAddress
  imageSize := imageSize
  findRange := findRange
  options := options
  ptrBytes_eq := four_ptrBytes
  endianswap_eq := fun _ => rfl

/-- A big-endian native build with a 32-bit `reg_t`. -/
def nativeBig (startAddress : BitVec (8 * 4)) (imageSize : ℕ) (options : Options) : Build where
  ptrBytes := 4
  order := .big
  dppc := false
  endianswap := .builtin
  startAddress := startAddress
  imageSize := imageSize
  findRange := fun _ => false
  options := options
  ptrBytes_eq := four_ptrBytes
  endianswap_eq := fun _ => rfl

/-! ### What is written for an event, in any build -/

section written

variable {A : Arch} {c : Site A} {op : RisuOp}

/-- The record of the event has a payload. -/
def CarriesPayload (c : Site A) : Prop :=
  c.isRegister = true ∨ c.op = some .comparemem ∧ c.memblock.isSome = true

instance (c : Site A) : Decidable (CarriesPayload c) := inferInstanceAs (Decidable (_ ∨ _ ∧ _))

theorem masterExtra_isSome (hop : c.op = some op) :
    (masterExtra op (c.prepared op) c.event).isSome = true ↔ CarriesPayload c := by
  unfold CarriesPayload
  cases op <;> simp [masterExtra, Site.isRegister, hop, RisuOp.isRegister]
  rfl

/-- The length of what is written. -/
theorem written_length (hop : c.op = some op) :
    c.written.length =
      A.sizeofHeader + if CarriesPayload c then (c.prepared op).header.size.toNat else 0 := by
  have hextra := masterExtra_isSome hop
  simp only [Site.written, hop, List.length_append, Header.bytes_length, extraBytes]
  cases hx : masterExtra op (c.prepared op) c.event with
  | none => simp [hx] at hextra; simp [hextra]
  | some extra => simp [hx] at hextra; simp [hextra]

/-- Without a payload only the header is written. -/
theorem written_of_no_payload (hop : c.op = some op) (h : ¬ CarriesPayload c) :
    c.written = (c.prepared op).header.bytes := by
  have hnone : masterExtra op (c.prepared op) c.event = none := by
    simpa [← masterExtra_isSome hop] using h
  simp [Site.written, hop, extraBytes, hnone]

/-- A payload is announced with the size of a register record or of a memory block. -/
theorem announced_of_payload (hop : c.op = some op) (h : CarriesPayload c) :
    A.announced op = A.sizeofReginfo ∨ A.announced op = memblockLen := by
  rcases h with hreg | ⟨hmem, -⟩
  · rw [Site.isRegister, hop] at hreg
    exact .inl (A.announced_register hreg)
  · right
    cases (hop.symm.trans hmem)
    rfl

end written

/-! ### The two builds -/

section builds

variable {startL startN : BitVec (8 * 4)} {sizeL sizeN : ℕ} {findRange : BitVec (8 * 4) → Bool}
variable {optionsL optionsN : Options}

/-- The two builds stand at the same values: op and pc of the header, registers, memory block. -/
structure SameValues (c : Site (port (dppcLittle startL sizeL findRange optionsL)))
    (d : Site (port (nativeBig startN sizeN optionsN))) : Prop where
  op : c.op = d.op
  pc : (dppcLittle startL sizeL findRange optionsL).getPc c.event.uc c.ri =
    (nativeBig startN sizeN optionsN).getPc d.event.uc d.ri
  ri : c.ri = d.ri
  block : c.block = d.block

variable {c : Site (port (dppcLittle startL sizeL findRange optionsL))}
variable {d : Site (port (nativeBig startN sizeN optionsN))}

/-- The little-endian build swaps the header, its size included. -/
theorem prepared_header_little (op : RisuOp) :
    (c.prepared op).header = reverseHeader (masterHeader op c.event c.ri) := by
  have hswaps : (port (dppcLittle startL sizeL findRange optionsL)).swapsHeader = true :=
    port_swapsHeader _
  have hmagic : (masterHeader op c.event c.ri).magic ≠ byteswap32 risuMagic := risuMagic_ne_swap
  show headerHostToArch (masterHeader op c.event c.ri) = _
  rw [headerHostToArch, Arch.swap32_unsigned, if_pos hswaps, if_pos hmagic]
  exact byteSwapHeader_of_builtin rfl _

theorem prepared_header_big (op : RisuOp) :
    (d.prepared op).header = masterHeader op d.event d.ri := by
  have hswaps : (port (nativeBig startN sizeN optionsN)).swapsHeader = false := port_swapsHeader _
  exact headerHostToArch_eq hswaps _

/-- The headers are the same bytes. -/
theorem prepared_header_bytes (h : SameValues c d) (op : RisuOp) :
    (c.prepared op).header.bytes = (d.prepared op).header.bytes := by
  have h32 : ∀ v : BitVec 32, bytesOf .little 4 (byteswap32 v).toNat = bytesOf .big 4 v.toNat :=
    fun v => bytesOf_swapVec .little 4 v
  have hsize : payloadSize op c.ri = payloadSize op d.ri := by
    rw [payloadSize_toNat, payloadSize_toNat]
    rfl
  have hpc : (masterHeader op c.event c.ri).pc = (masterHeader op d.event d.ri).pc := h.pc
  have hfields : (reverseHeader (masterHeader op c.event c.ri)).fields =
      (masterHeader op d.event d.ri).fields := by
    refine congrArg₂ List.cons (h32 risuMagic) (congrArg₂ List.cons ?_
      (congrArg₂ List.cons (h32 op.code) (congrArg₂ List.cons rfl (congrArg₂ List.cons ?_ rfl))))
    · exact (h32 (payloadSize op c.ri)).trans (by rw [hsize]; rfl)
    · rw [← hpc]
      exact h32 (masterHeader op c.event c.ri).pc
  rw [prepared_header_little, prepared_header_big, Header.bytes, Header.bytes, hfields]

/-- The swapped size is larger than the size. -/
theorem prepared_size_lt (op : RisuOp) (hop : c.op = some op) (h : CarriesPayload c) :
    (d.prepared op).header.size.toNat < (c.prepared op).header.size.toNat := by
  have hreginfo : (port (dppcLittle startL sizeL findRange optionsL)).sizeofReginfo = 444 :=
    Build.sizeofReginfo_eq _
  have hann := announced_of_payload hop h
  rw [hreginfo, memblockLen] at hann
  have hbig : (d.prepared op).header.size = BitVec.ofNat 32
      ((port (dppcLittle startL sizeL findRange optionsL)).announced op) := by
    rw [prepared_header_big]
    exact payloadSize_toNat op d.ri
  have hlittle : (c.prepared op).header.size = byteswap32 (BitVec.ofNat 32
      ((port (dppcLittle startL sizeL findRange optionsL)).announced op)) := by
    rw [prepared_header_little]
    exact congrArg byteswap32 (payloadSize_toNat op c.ri)
  rw [hbig, hlittle]
  rcases hann with hann | hann <;> rw [hann] <;> decide

theorem SameValues.carriesPayload (h : SameValues c d) : CarriesPayload c ↔ CarriesPayload d := by
  have hblock : c.memblock.isSome = d.memblock.isSome := by
    simpa [Site.block] using congrArg Option.isSome h.block
  unfold CarriesPayload Site.isRegister
  rw [h.op, hblock]

/-- Without payload the two builds write the same bytes. -/
theorem SameValues.written_eq (h : SameValues c d) (hp : ¬ CarriesPayload c) :
    c.written = d.written := by
  cases hop : d.op with
  | none => simp [Site.written, h.op, hop]
  | some op =>
    rw [written_of_no_payload (h.op.trans hop) hp,
      written_of_no_payload hop (fun hd => hp (h.carriesPayload.mpr hd)), prepared_header_bytes h]

/-- With a payload the little-endian build writes more. -/
theorem SameValues.written_lt (h : SameValues c d) (hp : CarriesPayload c) :
    d.written.length < c.written.length := by
  cases hop : c.op with
  | none => simp [CarriesPayload, Site.isRegister, hop] at hp
  | some op =>
    have hlt := prepared_size_lt (d := d) op hop hp
    rw [written_length hop, written_length (h.op.symm.trans hop), if_pos hp,
      if_pos (h.carriesPayload.mp hp)]
    exact Nat.add_lt_add_left hlt _

/-- Over a whole run the little-endian build writes no less, and more as soon as there is a
payload. -/
theorem flatMap_written_le {C : List (Site (port (dppcLittle startL sizeL findRange optionsL)))}
    {D : List (Site (port (nativeBig startN sizeN optionsN)))}
    (h : List.Forall₂ SameValues C D) :
    (D.flatMap Site.written).length ≤ (C.flatMap Site.written).length ∧
      ((∃ c ∈ C, CarriesPayload c) →
        (D.flatMap Site.written).length < (C.flatMap Site.written).length) := by
  induction h with
  | nil => simp
  | @cons c d C D hcd _ ih =>
    obtain ⟨hle, hlt⟩ := ih
    simp only [List.flatMap_cons, List.length_append]
    by_cases hp : CarriesPayload c
    · have := hcd.written_lt hp
      exact ⟨by omega, fun _ => by omega⟩
    · rw [hcd.written_eq hp]
      refine ⟨by omega, ?_⟩
      intro hlater
      obtain ⟨c', hc', hp'⟩ := hlater
      rcases List.mem_cons.mp hc' with rfl | hc'
      · exact absurd hp' hp
      · have := hlt ⟨c', hc', hp'⟩
        omega

theorem flatMap_written_eq_iff {C : List (Site (port (dppcLittle startL sizeL findRange optionsL)))}
    {D : List (Site (port (nativeBig startN sizeN optionsN)))}
    (h : List.Forall₂ SameValues C D) :
    C.flatMap Site.written = D.flatMap Site.written ↔ ∀ c ∈ C, ¬ CarriesPayload c := by
  constructor
  · intro heq c hc hp
    have hlt := (flatMap_written_le h).2 ⟨c, hc, hp⟩
    rw [heq] at hlt
    exact lt_irrefl _ hlt
  · intro hall
    induction h with
    | nil => rfl
    | cons hcd _ ih =>
      rw [List.flatMap_cons, List.flatMap_cons, hcd.written_eq (hall _ List.mem_cons_self),
        ih fun c hc => hall c (List.mem_cons_of_mem _ hc)]

/-- **When the two builds write the same trace.**  For events at which both builds have the same
header values, registers and memory blocks, the emulator build on a little-endian host writes the
bytes of the big-endian native build if and only if no event with a payload is reached. -/
theorem trace_bytes_eq_iff {es : List (Event (port (dppcLittle startL sizeL findRange optionsL)))}
    {es' : List (Event (port (nativeBig startN sizeN optionsN)))}
    (h : List.Forall₂ SameValues (kept es false none 0) (kept es' false none 0)) :
    (fileRun (master true es (.start _)) []).out = (fileRun (master true es' (.start _)) []).out ↔
      ∀ c ∈ kept es false none 0, ¬ CarriesPayload c := by
  rw [fileRun_master, fileRun_master]
  exact flatMap_written_eq_iff h

end builds

/-! ### The image at address 0, asking for an op in either build -/

/-- The emulator build, with its image at address 0. -/
abbrev dppc0 : Build := dppcLittle 0 0x10000 (fun _ => true) .default

/-- The native build, with its image at address 0. -/
abbrev native0 : Build := nativeBig 0 0x10000 .default

def requestLittle (op : RisuOp) : Event (port dppc0) where
  sig := .sigill
  uc := { gregs := fun _ => 0, fpregs := fun _ => 0, fpscr := 0,
          word := fun _ => byteswap32 (0x5af0 ||| op.code) }
  mem := fun _ _ => 0
  behindRi := fun _ => 0

def requestBig (op : RisuOp) : Event (port native0) where
  sig := .sigill
  uc := { gregs := fun _ => 0, fpregs := fun _ => 0, fpscr := 0, word := fun _ => 0x5af0 ||| op.code }
  mem := fun _ _ => 0
  behindRi := fun _ => 0

/-- The words of the image read the same, each in its own order. -/
theorem insnAt_swapped {start : BitVec (8 * 4)} {size : ℕ} {findRange : BitVec (8 * 4) → Bool}
    {o o' : Options} {uc uc' : Ucontext (8 * 4)} (hword : ∀ a, uc.word a = byteswap32 (uc'.word a))
    (addr : BitVec (8 * 4)) :
    (dppcLittle start size findRange o).insnAt uc addr =
      (nativeBig start size o').insnAt uc' addr := by
  have hswap : ∀ v : BitVec 32, byteswap32 (byteswap32 v) = v := swapVec_swapVec 4
  show (if start ≤ addr ∧ addr < start + BitVec.ofNat (8 * 4) size then byteswap32 (uc.word addr)
      else byteswap32 0) =
    if start ≤ addr ∧ addr < start + BitVec.ofNat (8 * 4) size then uc'.word addr else 0
  rw [hword, hswap]
  rfl

theorem reginfoInit_swapped {start : BitVec (8 * 4)} {size : ℕ}
    {findRange : BitVec (8 * 4) → Bool} {o o' : Options} {uc uc' : Ucontext (8 * 4)}
    (hword : ∀ a, uc.word a = byteswap32 (uc'.word a)) (hgregs : uc.gregs = uc'.gregs)
    (hfpregs : uc.fpregs = uc'.fpregs) (hfpscr : uc.fpscr = uc'.fpscr) :
    (dppcLittle start size findRange o).reginfoInit uc =
      (nativeBig start size o').reginfoInit uc' := by
  obtain ⟨gregs, fpregs, fpscr, word⟩ := uc
  obtain ⟨gregs', fpregs', fpscr', word'⟩ := uc'
  obtain ⟨rfl, rfl, rfl⟩ : gregs = gregs' ∧ fpregs = fpregs' ∧ fpscr = fpscr' :=
    ⟨hgregs, hfpregs, hfpscr⟩
  exact Reginfo.ext (insnAt_swapped hword _) (insnAt_swapped hword _) (insnAt_swapped hword _)
    (insnAt_swapped hword _) rfl rfl rfl rfl rfl

theorem requestBig_op (op : RisuOp) : RisuOp.ofCode (requestBig op).code = some op := by
  have hin : native0.startAddress ≤ native0.startAddress + 0 ∧ native0.startAddress + 0 <
      native0.startAddress + BitVec.ofNat _ native0.imageSize := by decide
  have hword : native0.insnAt (requestBig op).uc (native0.startAddress + 0) = 0x5af0 ||| op.code :=
    if_pos (e := native0.archToHost32 0) hin
  show RisuOp.ofCode (getRisuop (native0.reginfoInit (requestBig op).uc)) = some op
  unfold getRisuop
  rw [show (native0.reginfoInit (requestBig op).uc).faultingInsn = 0x5af0 ||| op.code from hword]
  cases op <;> decide

theorem requestLittle_ri (op : RisuOp) :
    dppc0.reginfoInit (requestLittle op).uc = native0.reginfoInit (requestBig op).uc :=
  reginfoInit_swapped (fun _ => rfl) rfl rfl rfl

theorem requestLittle_op (op : RisuOp) : RisuOp.ofCode (requestLittle op).code = some op := by
  rw [← requestBig_op op]
  exact congrArg (fun ri => RisuOp.ofCode (getRisuop ri)) (requestLittle_ri op)

/-- The two builds at the same op. -/
theorem sameValues_op (op : RisuOp) (isSetup : Bool) (n n' : ℕ) :
    SameValues ⟨requestLittle op, isSetup, none, n⟩ ⟨requestBig op, isSetup, none, n'⟩ := by
  refine ⟨?_, ?_, requestLittle_ri op, rfl⟩
  · exact (requestLittle_op op).trans (requestBig_op op).symm
  · have hpc : (0 : BitVec (8 * 4)) = (0 - 0 : BitVec (8 * 4)).setWidth (8 * 4) := by decide
    exact hpc

/-- The kept event of an image that asks for one op, in either build. -/
theorem sameValues_request (op : RisuOp) :
    kept [requestLittle op] false none 0 = [⟨requestLittle op, false, none, 1⟩] ∧
    List.Forall₂ SameValues (kept [requestLittle op] false none 0)
      (kept [requestBig op] false none 0) := by
  have hlittle : kept [requestLittle op] false none 0 = [⟨requestLittle op, false, none, 1⟩] := by
    rw [kept_ops_cons (fun _ => rfl) requestLittle_op, if_neg (by simp)]
    split_ifs <;> rfl
  have hbig : kept [requestBig op] false none 0 = [⟨requestBig op, false, none, 1⟩] := by
    rw [kept_ops_cons (fun _ => rfl) requestBig_op, if_neg (by simp)]
    split_ifs <;> rfl
  rw [hlittle, hbig]
  exact ⟨rfl, .cons (sameValues_op op false 1 1) .nil⟩

/-- A window of setup with an illegal instruction in it, and both ops of the memory block. -/
def setupOps : List RisuOp := [.setupbegin, .sigill, .setupend, .getmemblock, .setmemblock]

theorem kept_setupOps {A : Arch} {req : RisuOp → Event A} (hsig : ∀ op, (req op).sig = .sigill)
    (hop : ∀ op, RisuOp.ofCode (req op).code = some op) :
    kept (setupOps.map req) false none 0 =
      [⟨req .setupbegin, false, none, 1⟩, ⟨req .setupend, true, none, 3⟩,
        ⟨req .getmemblock, false, none, 4⟩, ⟨req .setmemblock, false, none, 5⟩] := by
  simp only [setupOps, List.map_cons, List.map_nil, kept_ops_cons hsig hop, setupAfter, memblockAfter]
  simp [kept]

/-- Through a window of setup and the ops of the memory block the two builds write the same bytes. -/
theorem trace_bytes_eq_setupOps :
    (∀ c ∈ kept (setupOps.map requestLittle) false none 0, ¬ CarriesPayload c) ∧
    (fileRun (master true (setupOps.map requestLittle) (.start _)) []).out =
      (fileRun (master true (setupOps.map requestBig) (.start _)) []).out := by
  have hlittle := kept_setupOps (fun _ => rfl) requestLittle_op
  have hbig := kept_setupOps (fun _ => rfl) requestBig_op
  have hsame : List.Forall₂ SameValues (kept (setupOps.map requestLittle) false none 0)
      (kept (setupOps.map requestBig) false none 0) := by
    rw [hlittle, hbig]
    exact .cons (sameValues_op _ _ _ _) (.cons (sameValues_op _ _ _ _) (.cons (sameValues_op _ _ _ _)
      (.cons (sameValues_op _ _ _ _) .nil)))
  have hnone : ∀ c ∈ kept (setupOps.map requestLittle) false none 0, ¬ CarriesPayload c := by
    rw [hlittle]
    intro c hc
    simp only [List.mem_cons, List.not_mem_nil, or_false] at hc
    rcases hc with rfl | rfl | rfl | rfl <;>
      simp [CarriesPayload, Site.isRegister, Site.op, requestLittle_op, RisuOp.isRegister]
  exact ⟨hnone, (trace_bytes_eq_iff hsame).mpr hnone⟩

/-- At a `TESTEND` the two builds write different bytes. -/
theorem trace_bytes_ne_testend :
    ¬ ∀ (es : List (Event (port dppc0))) (es' : List (Event (port native0))),
      List.Forall₂ SameValues (kept es false none 0) (kept es' false none 0) →
      (fileRun (master true es (.start _)) []).out =
        (fileRun (master true es' (.start _)) []).out := by
  intro hall
  obtain ⟨hkept, hsame⟩ := sameValues_request .testend
  have heq := hall _ _ hsame
  rw [fileRun_master, fileRun_master] at heq
  refine (flatMap_written_eq_iff hsame).mp heq ⟨requestLittle .testend, false, none, 1⟩ ?_ ?_
  · rw [hkept]
    exact List.mem_singleton_self _
  · simp [CarriesPayload, Site.isRegister, Site.op, requestLittle_op, RisuOp.isRegister]

end Risu.Ppc64
