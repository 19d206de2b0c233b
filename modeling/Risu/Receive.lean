import Risu.Ppc64.Port
import Risu.Record

/-!
# What `recv_register_info` accepts

A trace is read from a file or a pipe and is not to be trusted.  The rules a record has to keep are
listed in the order in which they are checked (`recordRules`), each with the code of its violation,
and `recv_register_info` returns the code of the first rule that is violated: `recvRegisterInfo_exact_iff`.
It does not where an op is misread (`Misread`), in a build that swaps bytes without built-ins.

* `frontHeader` — the header at the front of a stream, in the byte order of the host; `readHeader` — the
  same as `header_arch_to_host` leaves it;
* `WellFormed` — the stream begins with a record, in either byte order;
* `payloadRoom` — the size of the buffer that the payload of a record is read into.
-/

namespace Risu

open Lib Lib.Process

variable {A : Arch}

/-! ### Rules -/

/-- The code of the first rule that is violated. -/
def firstViolated : List (Bool × RisuResult) → RisuResult
  | [] => .ok
  | (holds, code) :: rules => if holds then firstViolated rules else code

theorem firstViolated_ok {rules : List (Bool × RisuResult)} (h : ∀ r ∈ rules, r.2 ≠ .ok) :
    firstViolated rules = .ok ↔ ∀ r ∈ rules, r.1 = true := by
  induction rules with
  | nil => simp [firstViolated]
  | cons r rules ih =>
    obtain ⟨holds, code⟩ := r
    have hcode := h _ List.mem_cons_self
    have ih := ih fun r hr => h r (List.mem_cons_of_mem _ hr)
    cases holds with
    | true => simp [firstViolated, ih]
    | false => simpa [firstViolated] using hcode

/-- The header at the front of a stream, as it lies there. -/
def rawHeader (A : Arch) (bs : List Byte) : Header A := Header.ofBytes A (bs.take A.sizeofHeader)

/-- A header in the byte order in which its magic number is right. -/
def orderHeader (h : Header A) : Header A :=
  if h.magic = byteswap32 risuMagic then reverseHeader h else h

/-- The header at the front of a stream, in the byte order of the host. -/
def frontHeader (A : Arch) (bs : List Byte) : Header A := orderHeader (rawHeader A bs)

/-- The header at the front of a stream, as `header_arch_to_host` leaves it. -/
def readHeader (A : Arch) (bs : List Byte) : Header A := headerArchToHost (rawHeader A bs)

/-- The size a header may claim before any payload is read: registers need only fit. -/
def sizeAllowed (A : Arch) (op : RisuOp) (size : ℕ) : Bool :=
  if op.isRegister then decide (size ≤ A.sizeofReginfo) else decide (size = A.announced op)

def sizeCode : RisuOp → RisuResult
  | .compare | .testend | .sigill => .badSizeHeader
  | .comparemem => .badSizeMemblock
  | .setmemblock | .getmemblock | .setupbegin | .setupend => .badSizeZero

/-- The rules for a header with a known op. -/
def sizeRules (A : Arch) (op : RisuOp) (size : ℕ) (bs : List Byte) : List (Bool × RisuResult) :=
  [(sizeAllowed A op size, sizeCode op),
    (decide (A.sizeofHeader + size ≤ bs.length), .badIo),
    (decide (size = A.announced op), .badSizeReginfo)]

/-- The rules for a record with a header, in order: a whole header, its magic number, its op, its size, a
whole payload, and a size that is consistent with the payload. -/
def headerRules (h : Header A) (bs : List Byte) : List (Bool × RisuResult) :=
  [(decide (A.sizeofHeader ≤ bs.length), .badIo), (decide (h.magic = risuMagic), .badMagic),
    ((RisuOp.ofCode h.risuOp).isSome, .badOp)] ++
    (RisuOp.ofCode h.risuOp).elim [] fun op => sizeRules A op h.size.toNat bs

/-- The rules for a record at the front of a stream. -/
def recordRules (A : Arch) (bs : List Byte) : List (Bool × RisuResult) := headerRules (frontHeader A bs) bs

/-- The stream begins with a record: a header in the byte order of the host or with every field
swapped, the magic number, an op, the size that belongs to the op, and as many bytes behind it. -/
def WellFormed (A : Arch) (bs : List Byte) : Prop :=
  A.sizeofHeader ≤ bs.length ∧ ∃ (h : Header A) (op : RisuOp),
    (h = rawHeader A bs ∨ h = reverseHeader (rawHeader A bs)) ∧
    h.magic = risuMagic ∧ h.risuOp = op.code ∧ h.size.toNat = A.announced op ∧
    A.sizeofHeader + h.size.toNat ≤ bs.length

/-! ### Well-formed records -/

theorem byteswap32_byteswap32 (v : BitVec 32) : byteswap32 (byteswap32 v) = v :=
  swapVec_swapVec 4 v

/-- The byte order in which the magic number is right is the one that is read. -/
theorem orderHeader_eq {h h₀ : Header A} (hm : h.magic = risuMagic) :
    orderHeader h₀ = h ↔ h = h₀ ∨ h = reverseHeader h₀ := by
  rw [orderHeader]
  split_ifs with hswap
  · refine ⟨fun heq => .inr heq.symm, ?_⟩
    rintro (rfl | rfl)
    · exact absurd (hm.symm.trans hswap) risuMagic_ne_swap
    · rfl
  · refine ⟨fun heq => .inl heq.symm, ?_⟩
    rintro (rfl | rfl)
    · rfl
    · refine absurd ?_ hswap
      rw [← hm]
      exact (byteswap32_byteswap32 h₀.magic).symm

theorem sizeAllowed_announced (op : RisuOp) : sizeAllowed A op (A.announced op) = true := by
  cases op <;> simp [sizeAllowed, RisuOp.isRegister, Arch.announced]

section sizeRules

variable {op : RisuOp} (size : ℕ) (bs : List Byte)

theorem firstViolated_register (h : op.isRegister = true) :
    firstViolated (sizeRules A op size bs) =
      if size ≤ A.sizeofReginfo then
        if A.sizeofHeader + size ≤ bs.length then
          if size = A.sizeofReginfo then .ok else .badSizeReginfo
        else .badIo
      else .badSizeHeader := by
  have hcode : sizeCode op = .badSizeHeader := by
    cases op <;> first | rfl | cases h
  simp only [sizeRules, firstViolated, sizeAllowed, h, if_true, decide_eq_true_eq, hcode,
    A.announced_register h]

theorem firstViolated_memblock :
    firstViolated (sizeRules A .comparemem size bs) =
      if size = memblockLen then
        if A.sizeofHeader + size ≤ bs.length then .ok else .badIo
      else .badSizeMemblock := by
  have hann : A.announced .comparemem = memblockLen := rfl
  by_cases hsize : size = memblockLen <;>
    simp [sizeRules, firstViolated, sizeAllowed, RisuOp.isRegister, sizeCode, hann, hsize]

theorem firstViolated_zero (h : op.hasPayload = false) (hlen : A.sizeofHeader ≤ bs.length) :
    firstViolated (sizeRules A op size bs) = if size = 0 then .ok else .badSizeZero := by
  have hann : A.announced op = 0 := by
    cases op <;> first | rfl | cases h
  have hcode : sizeCode op = .badSizeZero := by
    cases op <;> first | rfl | cases h
  have hreg : op.isRegister = false := by
    cases op <;> first | rfl | cases h
  by_cases hsize : size = 0 <;>
    simp [sizeRules, firstViolated, sizeAllowed, hreg, hcode, hann, hsize, hlen]

end sizeRules

theorem headerRules_codes (h : Header A) (bs : List Byte) : ∀ r ∈ headerRules h bs, r.2 ≠ .ok := by
  cases hop : RisuOp.ofCode h.risuOp with
  | none => simp [headerRules, hop]
  | some op => cases op <;> simp [headerRules, hop, sizeRules, sizeCode]

/-- No rule is violated exactly when the stream begins with a record. -/
theorem firstViolated_wellFormed (bs : List Byte) :
    firstViolated (recordRules A bs) = .ok ↔ WellFormed A bs := by
  rw [recordRules, firstViolated_ok (headerRules_codes _ bs)]
  refine ⟨?_, ?_⟩
  · intro h
    rw [headerRules] at h
    cases hop : RisuOp.ofCode (frontHeader A bs).risuOp with
    | none => simp [hop] at h
    | some op =>
      simp only [hop, sizeRules, Option.elim_some, List.cons_append, List.nil_append,
        List.forall_mem_cons, decide_eq_true_eq] at h
      obtain ⟨hlen, hmagic, -, -, hpay, hsize, -⟩ := h
      exact ⟨hlen, frontHeader A bs, op, (orderHeader_eq hmagic).mp rfl, hmagic,
        RisuOp.ofCode_eq_some.mp hop, hsize, hpay⟩
  · intro h
    obtain ⟨hlen, h, op, hread, hmagic, hop, hsize, hpay⟩ := h
    have hfront : frontHeader A bs = h := (orderHeader_eq hmagic).mpr hread
    have hcode := RisuOp.ofCode_eq_some.mpr hop
    simp only [headerRules, hfront, hcode, sizeRules, Option.elim_some, List.cons_append,
      List.nil_append, List.forall_mem_cons, decide_eq_true_eq, hsize, sizeAllowed_announced]
    rw [hsize] at hpay
    exact ⟨hlen, hmagic, rfl, trivial, hpay, trivial, nofun⟩

/-! ### Reading a record -/

/-- A whole header replaces whatever was there. -/
theorem Header.store_whole (h : Header A) {got : List Byte} (hlen : got.length = A.sizeofHeader) :
    h.store got = Header.ofBytes A got := by
  rw [Header.store, List.drop_eq_nil_of_le (by simp [hlen]), List.append_nil]

/-- What `read_buffer` makes of a file. -/
def readFile (n : ℕ) (bs : List Byte) : RisuResult × List Byte :=
  (if n ≤ bs.length then .ok else .badIo, bs.take n)

theorem fileRun_readBuffer (s : State A) (n : ℕ) (bs : List Byte) :
    fileRun (readBuffer true s n) bs = ⟨[], bs.drop n, .ret (readFile n bs)⟩ := by
  simp [readBuffer, readFile]

theorem fileRun_recvReginfo (s : State A) (bs : List Byte) :
    fileRun (recvReginfo true s) bs = ⟨[], bs.drop s.header.size.toNat,
      .ret (reginfoReceived s (readFile s.header.size.toNat bs))⟩ := by
  rw [recvReginfo, fileRun_bind (fileRun_readBuffer s _ bs)]
  rfl

theorem fileRun_recvMemblock (s : State A) (bs : List Byte) :
    fileRun (recvMemblock true s) bs =
      ⟨[], bs.drop memblockLen, .ret (memblockReceived s (readFile memblockLen bs))⟩ := by
  rw [recvMemblock, fileRun_bind (fileRun_readBuffer s _ bs)]
  rfl

theorem reginfoReceived_readFile (s : State A) (n : ℕ) (bs : List Byte) :
    (reginfoReceived s (readFile n bs)).1 =
      if n ≤ bs.length then
        if s.header.size.toNat = A.sizeofReginfo then .ok else .badSizeReginfo
      else .badIo := by
  simp only [reginfoReceived, readFile, A.reginfoSize_eq]
  split_ifs <;> simp_all

/-- The rules behind the header, for a header in the state and the rest of a stream. -/
theorem fileRun_recvBody (s : State A) (bs : List Byte)
    (hheader : A.sizeofHeader ≤ bs.length) (hmagic : s.header.magic = risuMagic) {op : RisuOp}
    (hop : RisuOp.ofCode s.header.risuOp = some op) :
    ∃ rest st, fileRun (recvBody true s) (bs.drop A.sizeofHeader) =
      ⟨[], rest, .ret (firstViolated (sizeRules A op s.header.size.toNat bs), st)⟩ := by
  have hleft : ∀ n, n ≤ (bs.drop A.sizeofHeader).length ↔ A.sizeofHeader + n ≤ bs.length := by
    intro n
    rw [List.length_drop]
    omega
  rw [recvBody]
  rw [if_neg (by simpa using hmagic)]
  simp only [hop]
  cases op with
  | compare | testend | sigill =>
    rw [firstViolated_register _ _ (by rfl)]
    simp only
    by_cases hsize : s.header.size.toNat ≤ A.sizeofReginfo
    · rw [if_neg (by omega), if_pos hsize, respond, if_pos rfl, ret_bind, fileRun_recvReginfo]
      refine ⟨_, _, congrArg _ (congrArg _ (Prod.ext ?_ rfl))⟩
      rw [reginfoReceived_readFile]
      simp only [hleft]
    · rw [if_pos (by omega), if_neg hsize]
      exact ⟨_, _, rfl⟩
  | comparemem =>
    rw [firstViolated_memblock]
    simp only
    by_cases hsize : s.header.size.toNat = memblockLen
    · rw [if_neg (not_not.mpr hsize), if_pos hsize, respond, if_pos rfl, ret_bind,
        fileRun_recvMemblock]
      refine ⟨_, _, congrArg _ (congrArg _ (Prod.ext ?_ rfl))⟩
      simp only [memblockReceived, readFile, hleft, hsize]
    · rw [if_pos hsize, if_neg hsize]
      exact ⟨_, _, rfl⟩
  | setmemblock | getmemblock | setupbegin | setupend =>
    rw [firstViolated_zero _ _ (by rfl) hheader]
    exact ⟨_, _, rfl⟩

/-- `recv_register_info` reports the first rule that is violated by the header as it is read. -/
theorem fileRun_recvRegisterInfo_rules (s : State A) (bs : List Byte) :
    ∃ rest st, fileRun (recvRegisterInfo true s) bs =
      ⟨[], rest, .ret (firstViolated (headerRules (readHeader A bs) bs), st)⟩ := by
  rw [recvRegisterInfo]
  by_cases hheader : A.sizeofHeader ≤ bs.length
  · have hlen : (bs.take A.sizeofHeader).length = A.sizeofHeader := by
      rw [List.length_take]
      omega
    have hrun : fileRun (readBuffer true s A.sizeofHeader >>= headerReceived true s) bs =
        fileRun (recvBody true (s.setHeader (readHeader A bs))) (bs.drop A.sizeofHeader) := by
      rw [fileRun_bind (fileRun_readBuffer s _ bs), readFile, if_pos hheader, headerReceived,
        if_neg (by simp), Header.store_whole _ hlen]
      rfl
    rw [show (readBuffer true s A.sizeofHeader >>= fun got => headerReceived true s got) =
      (readBuffer true s A.sizeofHeader >>= headerReceived true s) from rfl, hrun]
    simp only [headerRules, List.cons_append, List.nil_append, firstViolated, hheader, decide_true,
      if_true, decide_eq_true_eq]
    by_cases hmagic : (readHeader A bs).magic = risuMagic
    · rw [if_pos hmagic]
      cases hop : RisuOp.ofCode (readHeader A bs).risuOp with
      | none =>
        refine ⟨bs.drop A.sizeofHeader, s.setHeader (readHeader A bs), ?_⟩
        simp [recvBody, hmagic, hop]
      | some op =>
        simpa using fileRun_recvBody (s.setHeader (readHeader A bs)) bs hheader hmagic hop
    · rw [if_neg hmagic]
      refine ⟨bs.drop A.sizeofHeader, s.setHeader (readHeader A bs), ?_⟩
      simp [recvBody, hmagic]
  · refine ⟨[], s.setHeader (s.header.store bs), ?_⟩
    have htake : bs.take A.sizeofHeader = bs := List.take_of_length_le (by omega)
    have hdrop : bs.drop A.sizeofHeader = [] := List.drop_eq_nil_of_le (by omega)
    rw [fileRun_bind (fileRun_readBuffer s _ bs)]
    simp [readFile, hheader, headerReceived, htake, hdrop, headerRules, firstViolated]

/-! ### What is asked for -/

/-- The size of the buffer that the payload of a record for an op is read into: `ri`,
`other_memblock`, or none. -/
def payloadRoom (A : Arch) (c : BitVec 32) : ℕ :=
  match RisuOp.ofCode c with
  | some .compare | some .testend | some .sigill => A.sizeofReginfo
  | some .comparemem => memblockLen
  | _ => 0

theorem recvBody_asks (s : State A) :
    (recvBody true s).Asks fun st n => n ≤ payloadRoom A st.header.risuOp := by
  rw [recvBody]
  by_cases hmagic : s.header.magic ≠ risuMagic
  · rw [if_pos hmagic]
    trivial
  · rw [if_neg hmagic]
    cases hop : RisuOp.ofCode s.header.risuOp with
    | none => trivial
    | some op =>
      cases op with
      | compare | testend | sigill =>
        simp only
        split_ifs with hsize
        · trivial
        · refine ⟨?_, fun _ => trivial⟩
          simp only [payloadRoom, hop]
          omega
      | comparemem =>
        simp only
        split_ifs with hsize
        · trivial
        · refine ⟨?_, fun _ => trivial⟩
          simp only [payloadRoom, hop]
          exact le_rfl
      | setmemblock | getmemblock | setupbegin | setupend => trivial

theorem recvRegisterInfo_asks (s : State A) :
    ∃ k, recvRegisterInfo true s = .read s A.sizeofHeader k ∧
      ∀ got, (k got).Asks fun st n => n ≤ payloadRoom A st.header.risuOp := by
  refine ⟨_, rfl, ?_⟩
  intro got
  show (headerReceived true s (if got.length = A.sizeofHeader then .ok else .badIo, got)).Asks _
  by_cases hlen : got.length = A.sizeofHeader
  · rw [if_pos hlen, headerReceived, if_neg (by simp)]
    exact recvBody_asks _
  · rw [if_neg hlen, headerReceived, if_pos (by simp)]
    trivial

/-! ### An op that is misread -/

/-- Without built-ins the sign of a swapped `risu_op` fills the upper bytes.  One that ends in `0xff` is
taken for an illegal instruction. -/
def Misread (A : Arch) (bs : List Byte) : Prop :=
  A.endianswap ≠ .builtin ∧ A.sizeofHeader ≤ bs.length ∧ (rawHeader A bs).magic = byteswap32 risuMagic ∧
    (rawHeader A bs).risuOp.extractLsb' 24 8 = 0xff ∧ (rawHeader A bs).risuOp ≠ -1

/-- An op does not end in a byte with its highest bit set, but for an illegal instruction. -/
theorem ofCode_of_low {c : BitVec 32} (hlow : (c.extractLsb' 0 8).msb = true) (hne : c ≠ -1) :
    RisuOp.ofCode c = none := by
  cases hop : RisuOp.ofCode c with
  | none => rfl
  | some op =>
    rw [RisuOp.ofCode_eq_some] at hop
    subst hop
    cases op with
    | sigill => exact absurd rfl hne
    | compare | testend | setmemblock | getmemblock | comparemem | setupbegin | setupend =>
      exact absurd hlow (by decide)

theorem ofCode_ones (b : BitVec 8) : RisuOp.ofCode (0xffffff00#32 ||| b.setWidth 32) =
    if b = 0xff then some .sigill else none := by
  revert b
  decide +kernel

/-- Where the swap without built-ins and the reversal of a negative `risu_op` differ. -/
theorem ofCode_fallback {ul : ℕ} (hul : 32 ≤ ul) {x : BitVec 32} (hx : x.msb = true) (hne : x ≠ -1) :
    RisuOp.ofCode ((Byteswap.fallback ul).swap32 true x) =
        (if x.extractLsb' 24 8 = 0xff then some .sigill else none) ∧
      RisuOp.ofCode (byteswap32 x) = none := by
  refine ⟨by rw [Byteswap.fallback32_negative hul hx, ofCode_ones], ofCode_of_low ?_ ?_⟩
  · have hlow : (byteswap32 x).extractLsb' 0 8 = x.extractLsb' 24 8 := Byteswap.swapVec_low x
    rw [hlow, Byteswap.msb_high, hx]
  · intro hswap
    rw [← byteswap32_byteswap32 x, hswap] at hne
    exact hne (by decide)

theorem msb_of_high {x : BitVec 32} (h : x.extractLsb' 24 8 = 0xff) : x.msb = true := by
  rw [← Byteswap.msb_high, h]
  decide

/-- The header that is read differs from the one in the stream in no field that is looked at, unless its op
is misread. -/
theorem readHeader_agrees {bs : List Byte} (hlen : A.sizeofHeader ≤ bs.length) (h : ¬ Misread A bs) :
    (readHeader A bs).magic = (frontHeader A bs).magic ∧ (readHeader A bs).size = (frontHeader A bs).size ∧
      RisuOp.ofCode (readHeader A bs).risuOp = RisuOp.ofCode (frontHeader A bs).risuOp := by
  rw [readHeader, frontHeader, headerArchToHost, orderHeader, A.swap32_unsigned]
  split_ifs with hswap
  · refine ⟨A.swap32_unsigned _, A.swap32_unsigned _, ?_⟩
    show RisuOp.ofCode (A.endianswap.macros.swap32 true _) = RisuOp.ofCode (byteswap32 _)
    rw [Misread, not_and, not_and, not_and, not_and, not_not] at h
    cases hA : A.endianswap with
    | builtin => rfl
    | fallback ul hul =>
      have hop := h (fun hbuiltin => by cases hA.symm.trans hbuiltin) hlen hswap
      generalize (rawHeader A bs).risuOp = x at hop ⊢
      show RisuOp.ofCode ((Byteswap.fallback ul).swap32 true x) = _
      by_cases hplain : Byteswap.PlainSign x
      · exact congrArg RisuOp.ofCode ((Byteswap.fallback32_signed_iff hul x).mpr hplain)
      · obtain ⟨hmsb, hones⟩ := not_or.mp hplain
        have hne : x ≠ -1 := by
          rintro rfl
          exact hones (by decide)
        obtain ⟨hread, hfront⟩ := ofCode_fallback hul ((Bool.not_eq_false _).mp hmsb) hne
        rw [hread, hfront, if_neg fun hhigh => hne (hop hhigh)]
  · exact ⟨rfl, rfl, rfl⟩

theorem headerRules_agree {bs : List Byte} (h : ¬ Misread A bs) :
    firstViolated (headerRules (readHeader A bs) bs) = firstViolated (recordRules A bs) := by
  by_cases hlen : A.sizeofHeader ≤ bs.length
  · obtain ⟨hmagic, hsize, hop⟩ := readHeader_agrees hlen h
    rw [recordRules, headerRules, headerRules, hmagic, hsize, hop]
  · simp [recordRules, headerRules, firstViolated, hlen]

/-- The op of a misread header is known, and the one in the stream is none. -/
theorem headerRules_misread {bs : List Byte} (h : Misread A bs) :
    firstViolated (headerRules (readHeader A bs) bs) ≠ .badOp ∧
      firstViolated (recordRules A bs) = .badOp := by
  obtain ⟨hA, hlen, hswap, hhigh, hne⟩ := h
  have hread : RisuOp.ofCode (readHeader A bs).risuOp = some .sigill ∧
      RisuOp.ofCode (frontHeader A bs).risuOp = none := by
    rw [readHeader, frontHeader, headerArchToHost, orderHeader, A.swap32_unsigned, if_pos hswap,
      if_pos hswap]
    show RisuOp.ofCode (A.endianswap.macros.swap32 true _) = _ ∧ RisuOp.ofCode (byteswap32 _) = _
    cases hend : A.endianswap with
    | builtin => exact absurd hend hA
    | fallback ul hul =>
      have hop := ofCode_fallback hul (msb_of_high hhigh) hne
      rw [if_pos hhigh] at hop
      exact hop
  have hmagic : (readHeader A bs).magic = risuMagic ∧ (frontHeader A bs).magic = risuMagic := by
    rw [readHeader, frontHeader, headerArchToHost, orderHeader, A.swap32_unsigned, if_pos hswap,
      if_pos hswap]
    have hback : byteswap32 (rawHeader A bs).magic = risuMagic := by
      rw [hswap]
      exact byteswap32_byteswap32 risuMagic
    exact ⟨(A.swap32_unsigned _).trans hback, hback⟩
  constructor
  · rw [headerRules, hread.1]
    simp only [List.cons_append, List.nil_append, Option.elim_some, firstViolated, hlen, hmagic.1, decide_true,
      Option.isSome_some, if_true]
    rw [firstViolated_register _ _ rfl]
    split_ifs <;> exact RisuResult.noConfusion
  · simp [recordRules, headerRules, firstViolated, hlen, hmagic.2, hread.2]

/-! ### What is accepted -/

/-- `recv_register_info` returns `RES_OK` if and only if the stream begins with a record, and otherwise the
code of the first rule that is violated.  Whatever header it reads, a read into `ri` or into
`other_memblock` asks for no more than the buffer holds. -/
def ReceivesExactly (s : State A) (bs : List Byte) : Prop :=
  (∃ rest st, fileRun (recvRegisterInfo true s) bs =
    ⟨[], rest, .ret (firstViolated (recordRules A bs), st)⟩) ∧
  (firstViolated (recordRules A bs) = .ok ↔ WellFormed A bs) ∧
  ∃ k, recvRegisterInfo true s = .read s A.sizeofHeader k ∧
    ∀ got, (k got).Asks fun st n => n ≤ payloadRoom A st.header.risuOp

/-- A record whose op is misread is not received as the rules say. -/
theorem Misread.not_receivesExactly {bs : List Byte} (h : Misread A bs) (s : State A) :
    ¬ ReceivesExactly s bs := by
  obtain ⟨rest, st, hrun⟩ := fileRun_recvRegisterInfo_rules s bs
  obtain ⟨hread, hrules⟩ := headerRules_misread h
  rintro ⟨⟨rest', st', hrun'⟩, -⟩
  rw [hrun, hrules] at hrun'
  injection hrun' with hout hleft hlast
  injection hlast with hpair
  exact hread (congrArg Prod.fst hpair)

/-- **`recv_register_info` accepts exactly the well-formed records**, for every stream and every prior state,
unless an op is misread. -/
theorem recvRegisterInfo_exact_iff (s : State A) (bs : List Byte) :
    ReceivesExactly s bs ↔ ¬ Misread A bs := by
  refine ⟨fun hexact hmisread => hmisread.not_receivesExactly s hexact, fun h => ?_⟩
  obtain ⟨rest, st, hrun⟩ := fileRun_recvRegisterInfo_rules s bs
  rw [headerRules_agree h] at hrun
  exact ⟨⟨rest, st, hrun⟩, firstViolated_wellFormed bs, recvRegisterInfo_asks s⟩

namespace Ppc64

/-- A native 32-bit build without built-ins. -/
def fallback32 : Build :=
  { native32 with endianswap := ulong32, endianswap_eq := endianswap_eq_of_native ulong32 }

/-- A swapped header with the op 255 and the size of a register record, and as many zeros. -/
def misreadRecord : List Byte :=
  [0x55, 0x53, 0x49, 0x52, 0xbc, 0x01, 0, 0, 0xff, 0, 0, 0, 0, 0, 0, 0] ++ List.replicate 444 0

theorem rawHeader_misreadRecord : (rawHeader (port fallback32) misreadRecord).magic = byteswap32 risuMagic ∧
    (rawHeader (port fallback32) misreadRecord).size.toNat = 0xbc010000 ∧
    (rawHeader (port fallback32) misreadRecord).risuOp = 0xff000000 := by
  have htake : misreadRecord.take (port fallback32).sizeofHeader =
      [0x55, 0x53, 0x49, 0x52, 0xbc, 0x01, 0, 0, 0xff, 0, 0, 0, 0, 0, 0, 0] :=
    List.take_left' rfl
  rw [rawHeader, htake]
  exact ⟨by decide, by decide, by decide⟩

/-- The op 255 is taken for an illegal instruction. -/
theorem misread_misreadRecord : Misread (port fallback32) misreadRecord := by
  obtain ⟨hmagic, -, hop⟩ := rawHeader_misreadRecord
  refine ⟨Endianswap.noConfusion, ?_, hmagic, by rw [hop]; decide, by rw [hop]; decide⟩
  rw [misreadRecord, List.length_append, List.length_replicate]
  decide

/-- The record is accepted. -/
theorem not_receivesExactly_misread : ¬ ReceivesExactly (.start (port fallback32)) misreadRecord :=
  misread_misreadRecord.not_receivesExactly _

end Ppc64

end Risu
