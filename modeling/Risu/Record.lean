import Risu.Exchange

/-!
# Records: what one exchange carries

A `Record` is the content of one exchange: an op, a pc and a payload.  Two functions connect it to
the code:

* `recordOf` — the record `send_register_info` sends for an event, with `masterRecord_header` and
  `masterPacket_eq` showing that the buffers it writes are those of the record;
* `storeRecord` — the state `recv_register_info` leaves when it has received the record, in trace
  mode (`fileRun_recvRegisterInfo`) and over the socket (`eats_recvRegisterInfo`,
  `eats_recvPayload`).

A `COMPAREMEM` sent while `memblock` is `NULL` has a header that announces a block and no block;
its payload is `missing`.  A build that swaps the header takes the number of payload bytes from the
swapped header, so that it writes another number than it announces (`Arch.distorts`).
-/

namespace Risu

open Lib Lib.Process

inductive Payload (A : Arch) where
  | empty
  | regs (ri : A.Reginfo)
  | mem (block : List Byte)
  | missing

structure Record (A : Arch) where
  op : RisuOp
  pc : A.Ptr
  payload : Payload A

variable {A : Arch}

/-- The number of bytes `header.size` announces for an op. -/
def Arch.announced (A : Arch) (op : RisuOp) : ℕ :=
  match op with
  | .testend | .compare | .sigill => A.sizeofReginfo
  | .comparemem => memblockLen
  | .setmemblock | .getmemblock | .setupbegin | .setupend => 0

theorem Arch.announced_lt (A : Arch) (op : RisuOp) : A.announced op < 2 ^ 31 := by
  have := A.sizeofReginfo_lt
  cases op <;> simp only [Arch.announced, memblockLen] <;> omega

/-- A register op announces a register record. -/
theorem Arch.announced_register (A : Arch) {op : RisuOp} (h : op.isRegister = true) :
    A.announced op = A.sizeofReginfo := by
  cases op with
  | testend | compare | sigill => rfl
  | setmemblock | getmemblock | comparemem | setupbegin | setupend => cases h

/-- The number of payload bytes that are written: `header.size` after `header_host_to_arch`. -/
def Arch.writtenSize (A : Arch) (op : RisuOp) : ℕ :=
  if A.swapsHeader then (byteswap32 (BitVec.ofNat 32 (A.announced op))).toNat else A.announced op

/-- The payload is written in another length than its header announces. -/
def Arch.distorts (A : Arch) (op : RisuOp) : Bool := A.writtenSize op != A.announced op

theorem Arch.distorts_of_native {A : Arch} (hA : A.swapsHeader = false) (op : RisuOp) :
    A.distorts op = false := by
  simp [Arch.distorts, Arch.writtenSize, hA]

/-- The header of a record in host byte order. -/
def Record.header (r : Record A) : Header A where
  magic := risuMagic
  size := BitVec.ofNat 32 (A.announced r.op)
  risuOp := r.op.code
  pc := r.pc

theorem Record.header_size (r : Record A) : r.header.size.toNat = A.announced r.op := by
  have := A.announced_lt r.op
  simp only [Record.header, BitVec.toNat_ofNat]
  omega

/-- The payload as it is written, in the architecture's byte order. -/
def Payload.bytes : Payload A → List Byte
  | .empty => []
  | .regs ri => A.reginfoBytes (A.reginfoHostToArch ri)
  | .mem block => block
  | .missing => []

/-- The second buffer written for a record, if there is one. -/
def Payload.packet : Payload A → Option (List Byte)
  | .empty => none
  | .regs ri => some (Payload.regs ri).bytes
  | .mem block => some block
  | .missing => none

def Payload.isMissing : Payload A → Bool
  | .missing => true
  | _ => false

/-- The record as it lies in a trace file. -/
def Record.bytes (r : Record A) : List Byte := r.header.bytes ++ r.payload.bytes

/-- The payload is the one its op announces. -/
def Record.Sound (r : Record A) : Prop :=
  match r.payload with
  | .empty => r.op.isRegister = false ∧ r.op ≠ .comparemem
  | .regs _ => r.op.isRegister = true
  | .mem block => r.op = .comparemem ∧ block.length = memblockLen
  | .missing => r.op = .comparemem

/-- A payload fits a packet. -/
theorem Record.Sound.payload_lt {r : Record A} (h : r.Sound) :
    r.payload.bytes.length < 2 ^ 31 := by
  cases hp : r.payload with
  | empty => simp [Payload.bytes]
  | missing => simp [Payload.bytes]
  | regs ri => simpa [Payload.bytes, A.reginfoBytes_length] using A.sizeofReginfo_lt
  | mem block =>
    simp only [Record.Sound, hp] at h
    simp [Payload.bytes, h.2, memblockLen]

theorem Record.ne_testend_of_missing (r : Record A) (h : r.Sound)
    (hm : r.payload.isMissing = true) : r.op ≠ .testend := by
  cases hp : r.payload <;> simp [hp, Payload.isMissing] at hm
  simp only [Record.Sound, hp] at h
  simp [h]

/-! ### The record of an event -/

/-- The record `send_register_info` sends for an event with `ri[MASTER]` filled in. -/
def recordOf (op : RisuOp) (s : State A) (e : Event A) : Record A where
  op := op
  pc := A.getPc e.uc s.riMaster
  payload :=
    match op with
    | .testend | .compare | .sigill => .regs s.riMaster
    | .comparemem => s.memblock.elim .missing fun p => .mem (e.block p)
    | .setmemblock | .getmemblock | .setupbegin | .setupend => .empty

theorem recordOf_sound (op : RisuOp) (s : State A) (e : Event A) : (recordOf op s e).Sound := by
  cases op <;> simp [recordOf, Record.Sound, RisuOp.isRegister]
  cases s.memblock <;> simp

theorem payloadSize_toNat (op : RisuOp) (ri : A.Reginfo) :
    payloadSize op ri = BitVec.ofNat 32 (A.announced op) := by
  cases op <;> simp [payloadSize, Arch.announced, A.reginfoSize_eq]

theorem headerHostToArch_eq (hA : A.swapsHeader = false) (h : Header A) :
    headerHostToArch h = h := by
  simp [headerHostToArch, hA]

/-- `RISU_MAGIC` is not its own byte swap. -/
theorem risuMagic_ne_swap : risuMagic ≠ byteswap32 risuMagic := by decide

/-- The header of a record as it is written. -/
def Record.wireHeader (r : Record A) : Header A := headerHostToArch r.header

theorem Record.wireHeader_size (r : Record A) : r.wireHeader.size.toNat = A.writtenSize r.op := by
  rw [Record.wireHeader, headerHostToArch, Arch.writtenSize, Arch.swap32_unsigned]
  rw [if_pos (show r.header.magic ≠ byteswap32 risuMagic from risuMagic_ne_swap)]
  split_ifs with hswaps
  · rw [byteSwapHeader_of_builtin (A.endianswap_of_swapsHeader hswaps)]
    rfl
  · exact r.header_size

/-- The header written for an event is the header of its record. -/
theorem masterRecord_header (op : RisuOp) (s : State A) (e : Event A) :
    (masterRecord op s e).header = (recordOf op s e).wireHeader := by
  simp only [masterRecord, masterHeader, Record.wireHeader, Record.header, recordOf,
    payloadSize_toNat]

/-- Reading a buffer byte by byte from its start gives its bytes. -/
theorem map_range_getD (bs : List Byte) (n : ℕ) (behind : ℕ → Byte) (hn : bs.length = n) :
    (List.range n).map (fun i => if i < n then bs.getD i 0 else behind (i - n)) = bs := by
  subst hn
  apply List.ext_getElem
  · simp
  · intro i h _
    simp only [List.length_map, List.length_range] at h
    simp [h]

/-- The second buffer `send_register_info` writes, if there is one. -/
def masterPacket (op : RisuOp) (s : State A) (e : Event A) : Option (List Byte) :=
  (masterExtra op s e).map fun extra => (List.range s.header.size.toNat).map extra

theorem masterPacket_length {op : RisuOp} {s : State A} {e : Event A} {pkt : List Byte}
    (h : masterPacket op (masterRecord op s e) e = some pkt) : pkt.length = A.writtenSize op := by
  obtain ⟨extra, -, rfl⟩ := Option.map_eq_some_iff.mp h
  rw [List.length_map, List.length_range, masterRecord_header, Record.wireHeader_size]
  rfl

/-- The bytes written behind the header are the payload of the record; nothing is written for a
record without payload. -/
theorem masterPacket_eq {op : RisuOp} (hdist : A.distorts op = false) (s : State A) (e : Event A) :
    masterPacket op (masterRecord op s e) e = (recordOf op s e).payload.packet := by
  have hsize : (masterRecord op s e).header.size.toNat = A.announced op := by
    rw [masterRecord_header, Record.wireHeader_size]
    show A.writtenSize op = A.announced op
    simpa [Arch.distorts] using hdist
  have hregs : op.isRegister = true →
      (List.range A.sizeofReginfo).map (fun i =>
        if i < A.sizeofReginfo then (A.reginfoBytes (masterRecord op s e).riMaster).getD i 0
        else e.behindRi (i - A.sizeofReginfo)) =
      A.reginfoBytes (A.reginfoHostToArch s.riMaster) := by
    intro h
    rw [map_range_getD _ _ _ (A.reginfoBytes_length _)]
    simp [masterRecord, h]
  rw [masterPacket, hsize]
  cases op with
  | sigill => exact congrArg some (hregs rfl)
  | compare => exact congrArg some (hregs rfl)
  | testend => exact congrArg some (hregs rfl)
  | setmemblock => rfl
  | getmemblock => rfl
  | comparemem =>
    cases hm : s.memblock with
    | none => simp [masterExtra, recordOf, masterRecord, hm, Payload.packet]
    | some p => simp [masterExtra, recordOf, masterRecord, hm, Payload.packet, Event.block,
        Arch.announced]
  | setupbegin => rfl
  | setupend => rfl

/-- A second buffer is written for every payload, except for a block that is missing. -/
theorem masterPacket_isSome (op : RisuOp) (s : State A) (e : Event A) :
    (masterPacket op (masterRecord op s e) e).isSome = (recordOf op s e).payload.packet.isSome := by
  rw [masterPacket, Option.isSome_map]
  cases op with
  | comparemem =>
    cases hm : s.memblock <;> simp [masterExtra, recordOf, masterRecord, hm, Payload.packet]
  | sigill | compare | testend | setmemblock | getmemblock | setupbegin | setupend => rfl

/-- What is known of the second buffer written for a record. -/
structure Record.Packet (r : Record A) (packet : Option (List Byte)) : Prop where
  whole : A.distorts r.op = false → packet = r.payload.packet
  isSome : packet.isSome = r.payload.packet.isSome
  length : ∀ pkt, packet = some pkt → pkt.length = A.writtenSize r.op

theorem masterPacket_packet (op : RisuOp) (s : State A) (e : Event A) :
    (recordOf op s e).Packet (masterPacket op (masterRecord op s e) e) where
  whole := fun hdist => masterPacket_eq hdist s e
  isSome := masterPacket_isSome op s e
  length := fun _ => masterPacket_length

/-- The writes of `send_register_info` in terms of the record. -/
theorem sendRecord_eq (trace : Bool) (op : RisuOp) (s : State A) (e : Event A) :
    sendRecord trace op (masterRecord op s e) e =
      writeBuffer trace (masterRecord op s e) (recordOf op s e).wireHeader.bytes >>= fun res =>
        if res ≠ .ok then .ret (res, e.uc, masterRecord op s e)
        else
          match masterPacket op (masterRecord op s e) e with
          | none => .ret (masterFinish op (masterRecord op s e) e)
          | some pkt =>
            writeBuffer trace (masterRecord op s e) pkt >>= fun res =>
              if res ≠ .ok then .ret (res, e.uc, masterRecord op s e)
              else .ret (masterFinish op (masterRecord op s e) e) := by
  rw [sendRecord, masterPacket]
  rw [← masterRecord_header]
  cases masterExtra op (masterRecord op s e) e <;> rfl

/-! ### Receiving a record -/

/-- The state after `recv_register_info` has received a record. -/
def storeRecord (s : State A) (r : Record A) : State A :=
  match r.payload with
  | .empty => s.setHeader r.header
  | .regs ri => { s.setHeader r.header with riMaster := ri }
  | .mem block => { s.setHeader r.header with otherMemblock := s.otherMemblock.store block }
  | .missing => s.setHeader r.header

@[simp] theorem storeRecord_header (s : State A) (r : Record A) :
    (storeRecord s r).header = r.header := by
  rw [storeRecord]
  split <;> rfl

theorem reverseHeader_reverseHeader (h : Header A) : reverseHeader (reverseHeader h) = h := by
  have h32 : ∀ v : BitVec 32, byteswap32 (byteswap32 v) = v := swapVec_swapVec 4
  have hptr : ∀ v : A.Ptr, swapVec A.ptrBytes (swapVec A.ptrBytes v) = v :=
    swapVec_swapVec A.ptrBytes
  obtain ⟨magic, size, risuOp, pc⟩ := h
  simp only [reverseHeader, h32]
  exact congrArg (Header.mk magic size risuOp) (hptr pc)

theorem headerArchToHost_record (r : Record A) : headerArchToHost r.header = r.header := by
  rw [headerArchToHost, Arch.swap32_unsigned]
  rw [if_neg]
  exact risuMagic_ne_swap

/-- The receiver undoes the swap. -/
theorem headerArchToHost_wireHeader (r : Record A) : headerArchToHost r.wireHeader = r.header := by
  rw [Record.wireHeader, headerHostToArch, Arch.swap32_unsigned]
  rw [if_pos (show r.header.magic ≠ byteswap32 risuMagic from risuMagic_ne_swap)]
  split_ifs with hswaps
  · have hbuiltin := A.endianswap_of_swapsHeader hswaps
    have hswapped : (reverseHeader r.header).magic = byteswap32 risuMagic := rfl
    rw [headerArchToHost, Arch.swap32_unsigned, byteSwapHeader_of_builtin hbuiltin]
    rw [if_pos hswapped, byteSwapHeader_of_builtin hbuiltin, reverseHeader_reverseHeader]
  · exact headerArchToHost_record r

/-- The ops whose record is followed by a payload. -/
def RisuOp.hasPayload (op : RisuOp) : Bool := op.isRegister || op == .comparemem

/-- Only a payload can be written in another length than announced. -/
theorem Arch.hasPayload_of_distorts {A : Arch} {op : RisuOp} (h : A.distorts op = true) :
    op.hasPayload = true := by
  have hzero : (byteswap32 (BitVec.ofNat 32 0)).toNat = 0 := by decide
  cases op with
  | sigill | compare | testend | comparemem => rfl
  | setmemblock | getmemblock | setupbegin | setupend =>
    simp [Arch.distorts, Arch.writtenSize, Arch.announced, hzero] at h

/-- A record with a payload sends it as a second buffer. -/
theorem Record.Sound.packet {r : Record A} (h : r.Sound) (hm : r.payload.isMissing = false)
    (hp : r.op.hasPayload = true) : r.payload.packet = some r.payload.bytes := by
  cases hpl : r.payload with
  | empty =>
    simp only [Record.Sound, hpl] at h
    simp [RisuOp.hasPayload, h] at hp
  | missing => simp [hpl, Payload.isMissing] at hm
  | regs ri => rfl
  | mem block => rfl

/-- A record without payload is its header. -/
theorem Record.Sound.no_packet {r : Record A} (h : r.Sound) (hp : ¬ r.op.hasPayload = true)
    (s : State A) : r.payload.packet = none ∧ storeRecord s r = s.setHeader r.header := by
  cases hpl : r.payload with
  | empty => simp [Payload.packet, storeRecord, hpl]
  | missing => simp [Payload.packet, storeRecord, hpl]
  | regs ri =>
    simp only [Record.Sound, hpl] at h
    simp [RisuOp.hasPayload, h] at hp
  | mem block =>
    simp only [Record.Sound, hpl] at h
    simp [RisuOp.hasPayload, h] at hp

/-- What `recv_register_info` goes on to do when the header of a record has arrived. -/
def afterHeader (trace : Bool) (s : State A) (op : RisuOp) : Handler A (RisuResult × State A) :=
  if op.hasPayload then do
    respond trace s .ok
    if op.isRegister then recvReginfo trace s else recvMemblock trace s
  else .ret (.ok, s)

theorem recvBody_record (trace : Bool) (s : State A) (r : Record A) :
    recvBody trace (s.setHeader r.header) = afterHeader trace (s.setHeader r.header) r.op := by
  have hsize := r.header_size
  have hop : RisuOp.ofCode r.header.risuOp = some r.op := RisuOp.ofCode_code r.op
  rw [recvBody]
  rw [State.setHeader_header, if_neg (by simp [Record.header])]
  simp only [hop, hsize]
  cases r.op <;> simp [Arch.announced, afterHeader, RisuOp.hasPayload, RisuOp.isRegister]

/-- The bytes of a header arrive as that header, in either byte order. -/
theorem headerReceived_record (trace : Bool) (s : State A) {r : Record A} {h : Header A}
    (hh : headerArchToHost h = r.header) :
    headerReceived trace s (.ok, h.bytes) = afterHeader trace (s.setHeader r.header) r.op := by
  simp only [headerReceived, ne_eq, not_true_eq_false, if_false, Header.store_bytes, hh,
    recvBody_record]

/-- The bytes of a register payload arrive as those registers. -/
theorem reginfoReceived_record (s : State A) {r : Record A} {ri : A.Reginfo}
    (hr : r.Sound) (hp : r.payload = .regs ri) :
    reginfoReceived (s.setHeader r.header) (.ok, r.payload.bytes) = (.ok, storeRecord s r) := by
  have hann : A.announced r.op = A.sizeofReginfo := by
    simp only [Record.Sound, hp] at hr
    exact A.announced_register hr
  simp [reginfoReceived, hp, Payload.bytes, A.storeReginfo_bytes, A.archToHost_hostToArch,
    A.reginfoSize_eq, r.header_size, hann, storeRecord]

/-- The bytes of a memory payload arrive as that block. -/
theorem memblockReceived_record (s : State A) {r : Record A} {block : List Byte}
    (hp : r.payload = .mem block) :
    memblockReceived (s.setHeader r.header) (.ok, r.payload.bytes) = (.ok, storeRecord s r) := by
  simp [memblockReceived, hp, Payload.bytes, storeRecord]

theorem Arch.sizeofHeader_lt (A : Arch) : A.sizeofHeader < 2 ^ 31 := by
  rcases A.ptrBytes_eq with h | h <;> simp [Arch.sizeofHeader, Arch.headerPad, h]

/-! ### Receiving over the socket -/

section eats

variable {β : Type} {P : Handler A β → Prop} {s : State A}

theorem eats_readBuffer (hP : ∀ n k, P (.read s n k)) (bytes : ℕ) (pkt : List Byte)
    (hlen : pkt.length < 2 ^ 31) (f : RisuResult × List Byte → Handler A β)
    (hf : P (f (pktResult bytes pkt))) :
    Eats P (readBuffer false s bytes >>= f) (frame pkt) (f (pktResult bytes pkt)) :=
  eats_recvDataPkt hP bytes pkt hlen f hf

/-- The header packet of a record is consumed, and the receiver is ready to acknowledge it. -/
theorem eats_recvRegisterInfo (hP : ∀ n k, P (.read s n k)) {r : Record A} {h : Header A}
    (hh : headerArchToHost h = r.header) (g : RisuResult × State A → Handler A β)
    (hg : P (afterHeader false (s.setHeader r.header) r.op >>= g)) :
    Eats P (recvRegisterInfo false s >>= g) (frame h.bytes)
      (afterHeader false (s.setHeader r.header) r.op >>= g) := by
  have hpkt : pktResult A.sizeofHeader h.bytes = (.ok, h.bytes) := by
    simp [pktResult]
  have he := eats_readBuffer hP A.sizeofHeader h.bytes
    (by rw [Header.bytes_length]; exact A.sizeofHeader_lt)
    (fun got => headerReceived false s got >>= g)
  rw [hpkt, headerReceived_record false s hh] at he
  rw [recvRegisterInfo, bind_assoc]
  exact he hg

/-- The payload packet of a record is consumed and stored. -/
theorem eats_recvPayload {r : Record A} (hP : ∀ n k, P (.read (s.setHeader r.header) n k))
    (hr : r.Sound) (hp : r.op.hasPayload = true) (hm : r.payload.isMissing = false)
    (g : RisuResult × State A → Handler A β) (hg : P (g (.ok, storeRecord s r))) :
    Eats P ((if r.op.isRegister then recvReginfo false (s.setHeader r.header)
        else recvMemblock false (s.setHeader r.header)) >>= g)
      (frame r.payload.bytes) (g (.ok, storeRecord s r)) := by
  cases hpl : r.payload with
  | empty =>
    simp only [Record.Sound, hpl] at hr
    simp [RisuOp.hasPayload, hr] at hp
  | missing => simp [hpl, Payload.isMissing] at hm
  | regs ri =>
    have hsound := hr
    simp only [Record.Sound, hpl] at hr
    have hann := A.announced_register hr
    have hpkt : pktResult (s.setHeader r.header).header.size.toNat r.payload.bytes =
        (.ok, r.payload.bytes) := by
      simp [pktResult, r.header_size, hann, hpl, Payload.bytes, A.reginfoBytes_length]
    have h := eats_readBuffer hP (s.setHeader r.header).header.size.toNat r.payload.bytes
      (by simpa [hpl, Payload.bytes, A.reginfoBytes_length] using A.sizeofReginfo_lt)
      (fun got => g (reginfoReceived (s.setHeader r.header) got))
    rw [hpkt, reginfoReceived_record s hsound hpl] at h
    rw [if_pos hr, recvReginfo, bind_assoc, ← hpl]
    exact h hg
  | mem block =>
    have hsound := hr
    simp only [Record.Sound, hpl] at hr
    have hpkt : pktResult memblockLen r.payload.bytes = (.ok, r.payload.bytes) := by
      simp [pktResult, hpl, Payload.bytes, hr.2]
    have h := eats_readBuffer hP memblockLen r.payload.bytes
      (by simp [hpl, Payload.bytes, hr.2, memblockLen])
      (fun got => g (memblockReceived (s.setHeader r.header) got))
    rw [hpkt, memblockReceived_record s hpl] at h
    rw [if_neg (by simp [hr.1, RisuOp.isRegister]), recvMemblock, bind_assoc, ← hpl]
    exact h hg

/-- A packet of another length in place of a memory block is consumed and refused. -/
theorem eats_recvMemblock_bad (hP : ∀ n k, P (.read s n k)) {pkt : List Byte}
    (hlen : pkt.length < 2 ^ 31) (hne : pkt.length ≠ memblockLen)
    (g : RisuResult × State A → Handler A β) (hg : P (g (.badIo, s))) :
    Eats P (recvMemblock false s >>= g) (frame pkt) (g (.badIo, s)) := by
  have hpkt : pktResult memblockLen pkt = (.badIo, []) := by
    simp [pktResult, Ne.symm hne]
  have hrec : memblockReceived s (.badIo, []) = (.badIo, s) := by simp [memblockReceived]
  have h := eats_readBuffer hP memblockLen pkt hlen (fun got => g (memblockReceived s got))
  rw [hpkt, hrec] at h
  rw [recvMemblock, bind_assoc]
  exact h hg

/-- The same in place of a register record, whose buffer is converted nevertheless. -/
theorem eats_recvReginfo_bad (hP : ∀ n k, P (.read s n k)) {pkt : List Byte}
    (hlen : pkt.length < 2 ^ 31) (hne : pkt.length ≠ s.header.size.toNat)
    (g : RisuResult × State A → Handler A β) (hg : P (g (reginfoReceived s (.badIo, [])))) :
    Eats P (recvReginfo false s >>= g) (frame pkt) (g (reginfoReceived s (.badIo, []))) := by
  have hpkt : pktResult s.header.size.toNat pkt = (.badIo, []) := by
    simp [pktResult, Ne.symm hne]
  have h := eats_readBuffer hP s.header.size.toNat pkt hlen (fun got => g (reginfoReceived s got))
  rw [hpkt] at h
  rw [recvReginfo, bind_assoc]
  exact h hg

end eats

/-! ### Receiving from a trace file -/

/-- A record at the head of a trace file is read whole and stored. -/
theorem fileRun_recvRegisterInfo (s : State A) (r : Record A) (rest : List Byte)
    (hr : r.Sound) (hm : r.payload.isMissing = false) :
    fileRun (recvRegisterInfo true s) (r.bytes ++ rest) =
      ⟨[], rest, .ret (.ok, storeRecord s r)⟩ := by
  have hheader : fileRun (recvRegisterInfo true s) (r.bytes ++ rest) =
      fileRun (afterHeader true (s.setHeader r.header) r.op) (r.payload.bytes ++ rest) := by
    have htake : (r.header.bytes ++ (r.payload.bytes ++ rest)).take A.sizeofHeader =
        r.header.bytes := List.take_left' (by simp)
    have hdrop : (r.header.bytes ++ (r.payload.bytes ++ rest)).drop A.sizeofHeader =
        r.payload.bytes ++ rest := List.drop_left' (by simp)
    simp only [recvRegisterInfo, readBuffer, if_true, read_bind, ret_bind, fileRun_read,
      Record.bytes, List.append_assoc, htake, hdrop, Header.bytes_length,
      headerReceived_record true s (headerArchToHost_record r)]
  rw [hheader]
  cases hpl : r.payload with
  | empty =>
    simp only [Record.Sound, hpl] at hr
    simp [afterHeader, RisuOp.hasPayload, hr, Payload.bytes, storeRecord, hpl]
  | missing => simp [hpl, Payload.isMissing] at hm
  | regs ri =>
    have hsound := hr
    simp only [Record.Sound, hpl] at hr
    have hann := A.announced_register hr
    have hlen : r.payload.bytes.length = A.sizeofReginfo := by
      simp [hpl, Payload.bytes, A.reginfoBytes_length]
    have htake : (r.payload.bytes ++ rest).take _ = r.payload.bytes := List.take_left' hlen
    have hdrop : (r.payload.bytes ++ rest).drop _ = rest := List.drop_left' hlen
    have hrec := reginfoReceived_record s hsound hpl
    simp only [hpl] at hlen htake hdrop hrec
    simp [afterHeader, RisuOp.hasPayload, hr, respond, recvReginfo, readBuffer, r.header_size,
      hann, htake, hdrop, hlen, hrec]
  | mem block =>
    have hsound := hr
    simp only [Record.Sound, hpl] at hr
    have hlen : r.payload.bytes.length = memblockLen := by simp [hpl, Payload.bytes, hr.2]
    have htake : (r.payload.bytes ++ rest).take _ = r.payload.bytes := List.take_left' hlen
    have hdrop : (r.payload.bytes ++ rest).drop _ = rest := List.drop_left' hlen
    have hrec := memblockReceived_record s hpl
    simp only [hpl] at hlen htake hdrop hrec
    simp [afterHeader, RisuOp.hasPayload, RisuOp.isRegister, hr.1, respond, recvMemblock,
      readBuffer, htake, hdrop, hlen, hrec]

end Risu
