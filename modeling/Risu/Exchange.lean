import Risu.Comms

/-!
# The two signal handlers and their exchange (`risu.c`)

The file-scope variables of `risu.c` are the fields of `State`; a handler is a process that takes
the state on entry and returns the state it leaves behind, so that every pending system call shows
the variables as they are at that point of the source.  `trace` is the variable of that name, set
once by `risu_main`: in trace mode buffers go to a file without responses, otherwise each buffer
is a packet on the socket and is answered by one byte.

Two ghost fields record what a run has done: `completed` lists the ops of the exchanges a side has
completed with `RES_OK`, each with the `is_setup` then in force, and `contexts` the signal contexts
handed back to the image.

* `sendRegisterInfo`, `masterSigill`, `master` — the master;
* `recvRegisterInfo`, `compareRecord`, `recvAndCompareRegisterInfo`, `apprenticeSigill`,
  `apprentice` — the apprentice.
-/

namespace Risu

open Lib Lib.Process

/-- The contents of `other_memblock`. -/
def Block := { bs : List Byte // bs.length = memblockLen }

/-- Bytes read into the block overwrite its beginning. -/
def Block.store (b : Block) (got : List Byte) : Block :=
  ⟨(got ++ b.1.drop got.length).take memblockLen, by
    have := b.2
    simp only [List.length_take, List.length_append, List.length_drop]
    omega⟩

/-- A whole block replaces whatever was there. -/
theorem Block.store_val (b : Block) {got : List Byte} (h : got.length = memblockLen) :
    (b.store got).1 = got := by
  have hb := b.2
  simp [Block.store, List.drop_eq_nil_of_le (show b.1.length ≤ got.length by omega),
    List.take_of_length_le h.le]

@[simp] theorem Block.store_nil (b : Block) : b.store [] = b :=
  Subtype.ext (by simp [Block.store, List.take_of_length_le b.2.le])

structure State (A : Arch) where
  riMaster : A.Reginfo
  riApprentice : A.Reginfo
  otherMemblock : Block
  header : Header A
  memblock : Option A.Ptr
  archMemblock : A.Ptr
  signalCount : ℕ
  illegalInstructions : ℕ
  signalPc : A.Ptr
  isSetup : Bool
  completed : List (RisuOp × Bool)
  contexts : List A.Ucontext

/-- Static storage is zero, and `risu_main` clears the counters and `is_setup`. -/
def State.start (A : Arch) : State A where
  riMaster := A.reginfoOfBytes (List.replicate A.sizeofReginfo 0)
  riApprentice := A.reginfoOfBytes (List.replicate A.sizeofReginfo 0)
  otherMemblock := ⟨List.replicate memblockLen 0, List.length_replicate⟩
  header := ⟨0, 0, 0, 0⟩
  memblock := none
  archMemblock := 0
  signalCount := 0
  illegalInstructions := 0
  signalPc := 0
  isSetup := false
  completed := []
  contexts := []

/-- A process of this program. -/
abbrev Handler (A : Arch) (α : Type) := Process (State A) Death α

variable {A : Arch}

/-- An exchange is completed with `RES_OK`. -/
def State.complete (s : State A) (op : RisuOp) : State A :=
  { s with completed := s.completed ++ [(op, s.isSetup)] }

/-- The global `header` is overwritten. -/
@[simps]
def State.setHeader (s : State A) (h : Header A) : State A := { s with header := h }

/-- `illegal_instructions++` for an `OP_SIGILL`. -/
def State.countSigill (s : State A) (code : BitVec 32) : State A :=
  if code = RisuOp.sigill.code then { s with illegalInstructions := s.illegalInstructions + 1 }
  else s

/-! ### I/O functions -/

def readBuffer (trace : Bool) (s : State A) (bytes : ℕ) : Handler A (RisuResult × List Byte) :=
  if trace then
    .read s bytes fun got => .ret (if got.length = bytes then .ok else .badIo, got)
  else recvDataPkt s bytes

def writeBuffer (trace : Bool) (s : State A) (bs : List Byte) : Handler A RisuResult :=
  if trace then
    .write s bs fun res => .ret (if res = bs.length then .ok else .badIo)
  else sendDataPkt s bs

def respond (trace : Bool) (s : State A) (r : RisuResult) : Handler A Unit :=
  if trace then .ret () else sendResponseByte s r

/-! ### Master -/

/-- `header.size` as the first `switch` of `send_register_info` sets it. -/
def payloadSize (op : RisuOp) (ri : A.Reginfo) : BitVec 32 :=
  match op with
  | .testend | .compare | .sigill => BitVec.ofNat 32 (A.reginfoSize ri)
  | .comparemem => BitVec.ofNat 32 memblockLen
  | .setmemblock | .getmemblock | .setupbegin | .setupend => 0

/-- The header of the record for `op`, before `header_host_to_arch`. -/
def masterHeader (op : RisuOp) (e : Event A) (ri : A.Reginfo) : Header A where
  magic := risuMagic
  size := payloadSize op ri
  risuOp := op.code
  pc := A.getPc e.uc ri

/-- What `extra` points at, as the bytes found at and behind the pointer; `none` is `NULL`. -/
def masterExtra (op : RisuOp) (s : State A) (e : Event A) : Option (ℕ → Byte) :=
  match op with
  | .testend | .compare | .sigill =>
    some fun i =>
      if i < A.sizeofReginfo then (A.reginfoBytes s.riMaster).getD i 0
      else e.behindRi (i - A.sizeofReginfo)
  | .comparemem => s.memblock.map e.mem
  | .setmemblock | .getmemblock | .setupbegin | .setupend => none

/-- The state when the record is ready to be written: register payloads are in the architecture's
byte order, and so is the header. -/
def masterRecord (op : RisuOp) (s : State A) (e : Event A) : State A :=
  { s with
    header := headerHostToArch (masterHeader op e s.riMaster)
    riMaster := if op.isRegister then A.reginfoHostToArch s.riMaster else s.riMaster }

/-- The last `switch` of `send_register_info`. -/
def masterFinish (op : RisuOp) (s : State A) (e : Event A) : RisuResult × A.Ucontext × State A :=
  match op with
  | .compare | .sigill | .comparemem => (.ok, e.uc, s.complete op)
  | .testend => (.resEnd, e.uc, s)
  | .setmemblock =>
    let p := A.getReginfoParamreg s.riMaster
    (.ok, e.uc, { s with archMemblock := p, memblock := A.getArchMemory p }.complete op)
  | .getmemblock =>
    let paramreg := A.getReginfoParamreg s.riMaster
    (.ok, A.setUcontextParamreg e.uc (paramreg + s.archMemblock), s.complete op)
  | .setupbegin | .setupend =>
    (.ok, e.uc, { s with isSetup := op == RisuOp.setupbegin }.complete op)

/-- The writes of `send_register_info`, and what follows when both are answered `RES_OK`. -/
def sendRecord (trace : Bool) (op : RisuOp) (s : State A) (e : Event A) :
    Handler A (RisuResult × A.Ucontext × State A) := do
  let res ← writeBuffer trace s s.header.bytes
  if res ≠ .ok then
    return (res, e.uc, s)
  else
    match masterExtra op s e with
    | none => return masterFinish op s e
    | some extra =>
      let res ← writeBuffer trace s ((List.range s.header.size.toNat).map extra)
      if res ≠ .ok then
        return (res, e.uc, s)
      else
        return masterFinish op s e

/-- An `OP_SIGILL` while `is_setup` is true: the event is passed over without traffic. -/
def Event.Skipped (e : Event A) (isSetup : Bool) : Prop :=
  e.code = RisuOp.sigill.code ∧ isSetup = true

instance (e : Event A) (isSetup : Bool) : Decidable (e.Skipped isSetup) :=
  inferInstanceAs (Decidable (_ ∧ _))

def sendRegisterInfo (trace : Bool) (s : State A) (e : Event A) :
    Handler A (RisuResult × A.Ucontext × State A) :=
  let s := { s with riMaster := A.reginfoInit e.uc }.countSigill e.code
  if e.Skipped s.isSetup then
    .ret (.ok, e.uc, s)
  else
    match RisuOp.ofCode e.code with
    | none => .halt s .abort
    | some op => sendRecord trace op (masterRecord op s e) e

/-- What both handlers do with the result: go on past the instruction, or note where it was. -/
def resume (e : Event A) (r : RisuResult × A.Ucontext × State A) : RisuResult × State A :=
  if r.1 = .ok then
    (r.1, { r.2.2 with contexts := r.2.2.contexts ++ [A.advancePc r.2.1] })
  else
    (r.1, { r.2.2 with signalPc := A.getUcPc e.uc })

def masterSigill (trace : Bool) (s : State A) (e : Event A) : Handler A (RisuResult × State A) :=
  let s := { s with signalCount := s.signalCount + 1 }
  match e.sig with
  | .sigbus => .ret (resume e (.sigbus, e.uc, s))
  | .sigill => do
    let r ← sendRegisterInfo trace s e
    return resume e r

/-- How a side leaves its image. -/
inductive Leave where
  | jump (r : RisuResult)
  | returned
  deriving DecidableEq, Repr

/-- The image runs through its events under `master_sigill`. -/
def master (trace : Bool) : List (Event A) → State A → Handler A (Leave × State A)
  | [], s => .ret (.returned, s)
  | e :: es, s => do
    let r ← masterSigill trace s e
    if r.1 = .ok then master trace es r.2 else return (.jump r.1, r.2)

/-! ### Apprentice -/

/-- What the register cases of `recv_register_info` make of the payload they read. -/
def reginfoReceived (s : State A) (got : RisuResult × List Byte) : RisuResult × State A :=
  let ri := A.reginfoArchToHost (A.storeReginfo s.riMaster got.2)
  if got.1 = .ok ∧ s.header.size.toNat ≠ A.reginfoSize ri then
    -- the payload size is not self-consistent with the data
    (.badSizeReginfo, { s with riMaster := ri })
  else
    (got.1, { s with riMaster := ri })

/-- What the memory case makes of the payload it reads into `other_memblock`. -/
def memblockReceived (s : State A) (got : RisuResult × List Byte) : RisuResult × State A :=
  (got.1, { s with otherMemblock := s.otherMemblock.store got.2 })

/-- The register cases of `recv_register_info` after the header was acknowledged. -/
def recvReginfo (trace : Bool) (s : State A) : Handler A (RisuResult × State A) := do
  let got ← readBuffer trace s s.header.size.toNat
  return reginfoReceived s got

/-- The memory case of `recv_register_info` after the header was acknowledged. -/
def recvMemblock (trace : Bool) (s : State A) : Handler A (RisuResult × State A) := do
  let got ← readBuffer trace s memblockLen
  return memblockReceived s got

/-- `recv_register_info` once a header has been read. -/
def recvBody (trace : Bool) (s : State A) : Handler A (RisuResult × State A) :=
  if s.header.magic ≠ risuMagic then
    .ret (.badMagic, s)
  else
    match RisuOp.ofCode s.header.risuOp with
    | some .compare | some .testend | some .sigill =>
      if s.header.size.toNat > A.sizeofReginfo then
        .ret (.badSizeHeader, s)
      else do
        respond trace s .ok
        recvReginfo trace s
    | some .comparemem =>
      if s.header.size.toNat ≠ memblockLen then
        .ret (.badSizeMemblock, s)
      else do
        respond trace s .ok
        recvMemblock trace s
    | some .setmemblock | some .getmemblock | some .setupbegin | some .setupend =>
      .ret (if s.header.size.toNat = 0 then .ok else .badSizeZero, s)
    | none => .ret (.badOp, s)

/-- `recv_register_info` after the read of the header. -/
def headerReceived (trace : Bool) (s : State A) (got : RisuResult × List Byte) :
    Handler A (RisuResult × State A) :=
  let header := s.header.store got.2
  if got.1 ≠ .ok then .ret (got.1, s.setHeader header)
  else recvBody trace (s.setHeader (headerArchToHost header))

def recvRegisterInfo (trace : Bool) (s : State A) : Handler A (RisuResult × State A) := do
  let got ← readBuffer trace s A.sizeofHeader
  headerReceived trace s got

/-- The register cases of `recv_and_compare_register_info` once the registers matched. -/
def registerVerdict (op : RisuOp) (s : State A) (e : Event A) : RisuResult × A.Ucontext × State A :=
  if op.code ≠ s.header.risuOp then
    -- the reginfo matched, we should have matched op
    (.mismatchOp, e.uc, s)
  else if op = .testend then
    (.resEnd, e.uc, s)
  else if op ≠ .sigill then
    (.ok, A.reginfoUpdate s.riMaster e.uc, s)
  else
    (.ok, e.uc, s)

/-- The `switch` of `recv_and_compare_register_info`, with the record in `header`, `ri[MASTER]` and
`other_memblock`. -/
def compareRecord (op : RisuOp) (s : State A) (e : Event A) :
    Except Death (RisuResult × A.Ucontext × State A) :=
  match op with
  | .compare | .testend | .sigill =>
    if s.header.risuOp ≠ RisuOp.compare.code ∧ s.header.risuOp ≠ RisuOp.testend.code ∧
        s.header.risuOp ≠ RisuOp.sigill.code then
      .ok (.mismatchOp, e.uc, s)
    else if s.isSetup then
      .ok (registerVerdict op s e)
    else
      match A.reginfoIsEq s.signalCount s.riMaster s.riApprentice with
      | none => .error .fpe
      | some (false, a) => .ok (.mismatchReg, e.uc, { s with riApprentice := a })
      | some (true, a) => .ok (registerVerdict op { s with riApprentice := a } e)
  | .setmemblock =>
    if op.code ≠ s.header.risuOp then .ok (.mismatchOp, e.uc, s)
    else
      let p := A.getReginfoParamreg s.riApprentice
      .ok (.ok, e.uc, { s with archMemblock := p, memblock := A.getArchMemory p })
  | .getmemblock =>
    if op.code ≠ s.header.risuOp then .ok (.mismatchOp, e.uc, s)
    else
      let paramreg := A.getReginfoParamreg s.riApprentice
      .ok (.ok, A.setUcontextParamreg e.uc (paramreg + s.archMemblock), s)
  | .comparemem =>
    if op.code ≠ s.header.risuOp then .ok (.mismatchOp, e.uc, s)
    else
      match s.memblock with
      | none => .error .segv
      | some p =>
        if e.block p ≠ s.otherMemblock.1 then .ok (.mismatchMem, e.uc, s)
        else .ok (.ok, e.uc, s)
  | .setupbegin | .setupend =>
    if op.code ≠ s.header.risuOp then .ok (.mismatchOp, e.uc, s)
    else .ok (.ok, e.uc, { s with isSetup := op == RisuOp.setupbegin })

/-- The label `done:`, on error the master is told to exit. -/
def finishCompare (trace : Bool) (r : RisuResult × A.Ucontext × State A) :
    Handler A (RisuResult × A.Ucontext × State A) := do
  respond trace r.2.2 (if r.1 = .ok then .ok else .resEnd)
  return r

/-- An accepted record counts as completed from the moment the answer is decided. -/
def noteCompleted (op : RisuOp) (r : RisuResult × A.Ucontext × State A) :
    RisuResult × A.Ucontext × State A :=
  if r.1 = .ok then (r.1, r.2.1, r.2.2.complete op) else r

/-- The outcome of comparing a stored record with the apprentice's own event. -/
def verdict (e : Event A) (s : State A) : Except Death (RisuResult × A.Ucontext × State A) :=
  match RisuOp.ofCode e.code with
  | none => .error .abort
  | some op => (compareRecord op s e).map (noteCompleted op)

/-- `recv_and_compare_register_info` after the call of `recv_register_info`. -/
def judgeRecord (trace : Bool) (e : Event A) (r : RisuResult × State A) :
    Handler A (RisuResult × A.Ucontext × State A) :=
  if r.1 ≠ .ok then
    finishCompare trace (r.1, e.uc, r.2)
  else
    match verdict e r.2 with
    | .error d => .halt r.2 d
    | .ok v => finishCompare trace v

def recvAndCompareRegisterInfo (trace : Bool) (s : State A) (e : Event A) :
    Handler A (RisuResult × A.Ucontext × State A) :=
  let s := { s with riApprentice := A.reginfoInit e.uc }.countSigill e.code
  if e.Skipped s.isSetup then
    .ret (.ok, e.uc, s)
  else do
    let r ← recvRegisterInfo trace s
    judgeRecord trace e r

def apprenticeSigill (trace : Bool) (s : State A) (e : Event A) :
    Handler A (RisuResult × State A) :=
  let s := { s with signalCount := s.signalCount + 1 }
  match e.sig with
  | .sigbus => .ret (resume e (.sigbus, e.uc, s))
  | .sigill => do
    let r ← recvAndCompareRegisterInfo trace s e
    return resume e r

/-- The image runs through its events under `apprentice_sigill`. -/
def apprentice (trace : Bool) : List (Event A) → State A → Handler A (Leave × State A)
  | [], s => .ret (.returned, s)
  | e :: es, s => do
    let r ← apprenticeSigill trace s e
    if r.1 = .ok then apprentice trace es r.2 else return (.jump r.1, r.2)

/-! ### Exit status -/

inductive ExitCode where
  | success
  | failure
  deriving DecidableEq, Repr

/-- What `master()` and `apprentice()` return for the way the image was left: both print `done` and
succeed on `RES_END` only. -/
def exitCode : Leave → ExitCode
  | .jump .resEnd => .success
  | _ => .failure

end Risu
