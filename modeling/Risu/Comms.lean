import Risu.Lib.Duplex
import Risu.Interface

/-!
# Socket communication (`comms.c`)

The wire format of the socket: `send_data_pkt` writes a packet with its length in front and waits
for one response byte, `recv_data_pkt` receives a packet of an agreed length and throws away one
of any other length, `send_response_byte` answers.  The receive loops retry short reads, so each
is proved to consume exactly its bytes however the stream is cut (`eats_recvBytes`,
`eats_recvAndDiscardBytes`, `eats_recvDataPkt`).

A read that returns nothing is the end of the stream; `EINTR` restarts a read without any other
effect and is not shown.
-/

namespace Risu

open Lib Lib.Process

/-- How a process can die: `abort()`, `exit(EXIT_FAILURE)`, an access through a null pointer or
past a buffer, a division that traps. -/
inductive Death where
  | abort
  | exitFailure
  | segv
  | fpe
  deriving DecidableEq, Repr

variable {σ β : Type}

/-! ### Receive loops -/

/-- `recv_bytes`. -/
def recvBytes (s : σ) (pktlen : ℕ) : Process σ Death (List Byte) :=
  if _hz : pktlen = 0 then .ret []
  else .read s pktlen fun c =>
    if _hc : c = [] then .halt s .exitFailure
    else recvBytes s (pktlen - c.length) >>= fun rest => .ret (c ++ rest)
termination_by pktlen
decreasing_by
  have := List.length_pos_iff.mpr _hc
  omega

/-- The loop of `recv_and_discard_bytes` for a count that is not negative. -/
def discardLoop (s : σ) (pktlen : ℕ) : Process σ Death Unit :=
  if _hz : pktlen = 0 then .ret ()
  else .read s (min 64 pktlen) fun c =>
    if _hc : c = [] then .halt s .exitFailure
    else discardLoop s (pktlen - c.length)
termination_by pktlen
decreasing_by
  have := List.length_pos_iff.mpr _hc
  omega

/-- `recv_and_discard_bytes`, called with a `uint32_t` for its `int` parameter.  A negative count
reaches `read` as a huge `size_t` for the 64-byte buffer. -/
def recvAndDiscardBytes (s : σ) (pktlen : ℕ) : Process σ Death Unit :=
  if pktlen < 2 ^ 31 then discardLoop s pktlen
  else .read s (2 ^ 64 - 2 ^ 32 + pktlen) fun _ => .halt s .segv

section eats

variable {P : Process σ Death β → Prop} {s : σ}

theorem eats_recvBytes (bs : List Byte) (hP : ∀ n k, 0 < n → n ≤ bs.length → P (.read s n k))
    (f : List Byte → Process σ Death β) (hf : P (f bs)) :
    Eats P (recvBytes s bs.length >>= f) bs (f bs) := by
  induction hn : bs.length using Nat.strong_induction_on generalizing bs f with
  | _ n ih =>
    rw [recvBytes]
    split_ifs with hz
    · obtain rfl : bs = [] := List.length_eq_zero_iff.mp (by omega)
      exact .done hf
    · simp only [read_bind]
      refine .read (hP _ _ (by omega) hn.ge) (by omega) hn.ge ?_
      intro c rest hbs hc hcn
      have hlen : n - c.length = rest.length := by
        rw [← hn, hbs, List.length_append, Nat.add_sub_cancel_left]
      have hpos := List.length_pos_iff.mpr hc
      rw [dif_neg hc, bind_assoc, hlen]
      subst hbs
      have hP' : ∀ n k, 0 < n → n ≤ rest.length → P (.read s n k) := fun n k hpos hle =>
        hP n k hpos (by rw [List.length_append]; omega)
      simpa using ih rest.length (by omega) rest hP' (fun rest => f (c ++ rest)) hf rfl

theorem eats_discardLoop (hP : ∀ n k, 0 < n → n ≤ 64 → P (.read s n k)) (bs : List Byte)
    (f : Unit → Process σ Death β) (hf : P (f ())) :
    Eats P (discardLoop s bs.length >>= f) bs (f ()) := by
  induction hn : bs.length using Nat.strong_induction_on generalizing bs with
  | _ n ih =>
    rw [discardLoop]
    split_ifs with hz
    · obtain rfl : bs = [] := List.length_eq_zero_iff.mp (by omega)
      exact .done hf
    · simp only [read_bind]
      refine .read (hP _ _ (by omega) (by omega)) (by omega) (by omega) ?_
      intro c rest hbs hc hcn
      have hlen : n - c.length = rest.length := by
        rw [← hn, hbs, List.length_append, Nat.add_sub_cancel_left]
      have hpos := List.length_pos_iff.mpr hc
      rw [dif_neg hc, hlen]
      exact ih rest.length (by omega) rest rfl

theorem eats_recvAndDiscardBytes (hP : ∀ n k, 0 < n → n ≤ 64 → P (.read s n k)) (bs : List Byte)
    (hlen : bs.length < 2 ^ 31) (f : Unit → Process σ Death β) (hf : P (f ())) :
    Eats P (recvAndDiscardBytes s bs.length >>= f) bs (f ()) := by
  rw [recvAndDiscardBytes, if_pos hlen]
  exact eats_discardLoop hP bs f hf

end eats

/-! ### Packets -/

/-- What `send_data_pkt` puts on the wire: the length in network order, then the data. -/
def frame (pkt : List Byte) : List Byte := bytesOf .big 4 pkt.length ++ pkt

/-- `send_data_pkt`, with `safe_writev` taking the whole message.  A length that is negative as an
`int` makes `writev` fail. -/
def sendDataPkt (s : σ) (pkt : List Byte) : Process σ Death RisuResult :=
  if pkt.length < 2 ^ 31 then
    .write s (frame pkt) fun _ => .read s 1 fun c =>
      match c with
      | [] => .halt s .exitFailure
      | resp :: _ => .ret (RisuResult.ofByte resp)
  else .halt s .exitFailure

/-- `recv_data_pkt` once the length is known: a packet of another length is read anyway, so that a
response can be sent. -/
def recvPktBody (s : σ) (pktlen netPktlen : ℕ) : Process σ Death (RisuResult × List Byte) :=
  if pktlen ≠ netPktlen then do
    recvAndDiscardBytes s netPktlen
    return (.badIo, [])
  else do
    let pkt ← recvBytes s pktlen
    return (.ok, pkt)

/-- `recv_data_pkt`: the result and the bytes stored through `pkt`. -/
def recvDataPkt (s : σ) (pktlen : ℕ) : Process σ Death (RisuResult × List Byte) := do
  let netPktlen ← recvBytes s 4
  recvPktBody s pktlen (valueOf .big netPktlen)

/-- `send_response_byte`. -/
def sendResponseByte (s : σ) (resp : RisuResult) : Process σ Death Unit :=
  .write s [resp.toByte] fun n => if n = 1 then .ret () else .halt s .exitFailure

/-- What `recv_data_pkt` makes of a packet when it expects `pktlen` bytes. -/
def pktResult (pktlen : ℕ) (pkt : List Byte) : RisuResult × List Byte :=
  if pktlen = pkt.length then (.ok, pkt) else (.badIo, [])

theorem eats_recvPktBody {P : Process σ Death β → Prop} {s : σ} (hP : ∀ n k, P (.read s n k))
    (pktlen : ℕ) (pkt : List Byte) (hlen : pkt.length < 2 ^ 31)
    (f : RisuResult × List Byte → Process σ Death β) (hf : P (f (pktResult pktlen pkt))) :
    Eats P (recvPktBody s pktlen pkt.length >>= f) pkt (f (pktResult pktlen pkt)) := by
  by_cases heq : pktlen = pkt.length
  · subst heq
    simp only [recvPktBody, ne_eq, not_true_eq_false, if_false, pktResult, if_true, bind_assoc,
      pure_eq, ret_bind] at hf ⊢
    exact eats_recvBytes pkt (fun n k _ _ => hP n k) _ hf
  · simp only [recvPktBody, ne_eq, heq, not_false_eq_true, if_true, pktResult, if_false,
      bind_assoc, pure_eq, ret_bind] at hf ⊢
    exact eats_recvAndDiscardBytes (fun n k _ _ => hP n k) pkt hlen _ hf

/-- **A packet is consumed exactly**, whatever length the receiver expected. -/
theorem eats_recvDataPkt {P : Process σ Death β → Prop} {s : σ} (hP : ∀ n k, P (.read s n k))
    (pktlen : ℕ) (pkt : List Byte) (hlen : pkt.length < 2 ^ 31)
    (f : RisuResult × List Byte → Process σ Death β) (hf : P (f (pktResult pktlen pkt))) :
    Eats P (recvDataPkt s pktlen >>= f) (frame pkt) (f (pktResult pktlen pkt)) := by
  have hval : valueOf .big (bytesOf .big 4 pkt.length) = pkt.length :=
    valueOf_bytesOf_of_lt .big (lt_trans hlen (by norm_num))
  have hbody := eats_recvPktBody hP pktlen pkt hlen f hf
  have hhead := eats_recvBytes (bytesOf .big 4 pkt.length) (fun n k _ _ => hP n k)
    (fun netPktlen => recvPktBody s pktlen (valueOf .big netPktlen) >>= f)
    (by rw [hval]; exact hbody.here)
  rw [bytesOf_length, hval] at hhead
  rw [recvDataPkt, bind_assoc, frame]
  exact hhead.trans hbody

/-! ### Packets of another length -/

/-- A pending read asks for at least one byte, and for no more than `dumpbuf` holds. -/
def FitsDumpbuf : Process σ Death β → Prop
  | .read _ n _ => 1 ≤ n ∧ n ≤ 64
  | _ => True

/-- The length of a packet, as `recv_data_pkt` receives it. -/
theorem eats_pktlen {P : Process σ Death (RisuResult × List Byte) → Prop} (s : σ) (pktlen : ℕ)
    (len : BitVec 32) (hP : ∀ n k, 0 < n → n ≤ 4 → P (.read s n k))
    (hbody : P (recvPktBody s pktlen len.toNat)) :
    Eats P (recvDataPkt s pktlen) (bytesOf .big 4 len.toNat) (recvPktBody s pktlen len.toNat) := by
  have hval : valueOf .big (bytesOf .big 4 len.toNat) = len.toNat :=
    valueOf_bytesOf_of_lt .big len.isLt
  have hhead := eats_recvBytes (bytesOf .big 4 len.toNat) (by rwa [bytesOf_length])
    (fun netPktlen => recvPktBody s pktlen (valueOf .big netPktlen)) (by rwa [hval])
  rwa [bytesOf_length, hval] at hhead

/-- **A packet of another length is discarded, if its length is an `int`.**  For every expected
length and every other length in front of a packet: in whatever chunks the stream arrives, exactly
the packet is consumed, each read asks for 1 to 64 bytes, nothing is stored and the result is
`RES_BAD_IO`, if and only if the length is less than 2^31. -/
theorem discards_iff (s : σ) (pktlen : ℕ) (len : BitVec 32) (hne : pktlen ≠ len.toNat)
    (pkt : List Byte) (hpkt : pkt.length = len.toNat) :
    Eats FitsDumpbuf (recvDataPkt s pktlen) (bytesOf .big 4 len.toNat ++ pkt) (.ret (.badIo, [])) ↔
      len.toNat < 2 ^ 31 := by
  have hread : ∀ n k, 0 < n → n ≤ 64 →
      FitsDumpbuf (.read s n k : Process σ Death (RisuResult × List Byte)) :=
    fun _ _ hpos hle => ⟨hpos, hle⟩
  refine ⟨?_, ?_⟩
  · intro h
    have hhead := eats_pktlen (P := fun _ => True) s pktlen len (fun _ _ _ _ => trivial) trivial
    have hbody := (hhead.rest h).here
    by_contra hlt
    rw [recvPktBody, if_pos hne, recvAndDiscardBytes, if_neg hlt] at hbody
    have hfits : 2 ^ 64 - 2 ^ 32 + len.toNat ≤ 64 := hbody.2
    omega
  · intro hlt
    have hbody : Eats FitsDumpbuf (recvPktBody s pktlen len.toNat) pkt (.ret (.badIo, [])) := by
      rw [recvPktBody, if_pos hne, ← hpkt]
      exact eats_recvAndDiscardBytes hread pkt (by omega) _ trivial
    have hhead := eats_pktlen s pktlen len (fun n k hpos hle => hread n k hpos (by omega)) hbody.here
    exact hhead.trans hbody

/-- A packet of two bytes where four were expected. -/
theorem discards_two : Eats FitsDumpbuf (recvDataPkt () 4) (bytesOf .big 4 2 ++ [7, 7])
    (.ret (.badIo, [])) :=
  (discards_iff () 4 2 (by decide) [7, 7] rfl).mpr (by decide)

/-- A length of 2^31 makes `recv_data_pkt` ask for more than `dumpbuf` holds. -/
theorem discards_negative :
    ¬ Eats FitsDumpbuf (recvDataPkt () 4) (bytesOf .big 4 0x80000000 ++ List.replicate 0x80000000 0)
      (.ret (.badIo, [])) := by
  intro h
  have hhead := eats_pktlen (P := fun _ => True) () 4 0x80000000 (fun _ _ _ _ => trivial) trivial
  exact absurd (hhead.rest h).here.2 (by decide)

/-! ### Talking through the packet functions only -/

/-- What a packet looks like on the wire. -/
def Framed (bs : List Byte) : Prop := ∃ pkt : List Byte, pkt.length < 2 ^ 31 ∧ bs = frame pkt

/-- A process whose only traffic is calls of `send_data_pkt`, with any data, one after another. -/
inductive SendsPackets {α : Type} : Process σ Death α → Prop
  | done {p : Process σ Death α} : p.Done → SendsPackets p
  | send {s : σ} {pkt : List Byte} {k : RisuResult → Process σ Death α} :
      (∀ r, SendsPackets (k r)) → SendsPackets (sendDataPkt s pkt >>= k)

theorem sendDataPkt_bind {α : Type} {s : σ} {pkt : List Byte}
    {f : RisuResult → Process σ Death α} (hlen : pkt.length < 2 ^ 31) :
    (sendDataPkt s pkt >>= f) = .write s (frame pkt) fun _ => .read s 1 fun c =>
      match c with
      | [] => .halt s .exitFailure
      | resp :: _ => f (RisuResult.ofByte resp) := by
  simp only [sendDataPkt, if_pos hlen, write_bind, read_bind]
  congr
  funext _
  congr
  funext c
  cases c <;> rfl

theorem SendsPackets.client {α : Type} {p : Process σ Death α} (h : SendsPackets p) :
    Client Framed p := by
  induction h with
  | done hd => exact .done hd
  | @send s pkt k _ ih =>
    by_cases hlen : pkt.length < 2 ^ 31
    · rw [sendDataPkt_bind hlen]
      exact .ask ⟨pkt, hlen, rfl⟩ rfl fun b => ih _
    · rw [sendDataPkt, if_neg hlen]
      exact .done trivial

/-- The calls of a receive loop are made in one state. -/
theorem everywhere_recvBytes {P : σ → Prop} {s : σ} (hs : P s) (n : ℕ) :
    (recvBytes s n).Everywhere P fun _ => True := by
  induction n using Nat.strong_induction_on with
  | _ n ih =>
    rw [recvBytes]
    split_ifs with hz
    · trivial
    · refine ⟨hs, fun c => ?_⟩
      beta_reduce
      split_ifs with hc
      · exact hs
      · have hpos := List.length_pos_iff.mpr hc
        exact (ih _ (by omega)).bind fun _ _ => trivial

theorem everywhere_discardLoop {P : σ → Prop} {s : σ} (hs : P s) (n : ℕ) :
    (discardLoop s n).Everywhere P fun _ => True := by
  induction n using Nat.strong_induction_on with
  | _ n ih =>
    rw [discardLoop]
    split_ifs with hz
    · trivial
    · refine ⟨hs, fun c => ?_⟩
      beta_reduce
      split_ifs with hc
      · exact hs
      · have hpos := List.length_pos_iff.mpr hc
        exact ih _ (by omega)

theorem everywhere_recvDataPkt {P : σ → Prop} {s : σ} (hs : P s) (n : ℕ) :
    (recvDataPkt s n).Everywhere P fun _ => True := by
  refine (everywhere_recvBytes hs 4).bind fun netPktlen _ => ?_
  unfold recvPktBody
  split_ifs
  · refine Everywhere.bind (Q := fun _ => True) ?_ fun _ _ => trivial
    unfold recvAndDiscardBytes
    split_ifs
    · exact everywhere_discardLoop hs _
    · exact ⟨hs, fun _ => hs⟩
  · exact (everywhere_recvBytes hs n).bind fun _ _ => trivial

theorem everywhere_sendDataPkt {P : σ → Prop} {s : σ} (hs : P s) (pkt : List Byte) :
    (sendDataPkt s pkt).Everywhere P fun _ => True := by
  unfold sendDataPkt
  split_ifs
  · refine ⟨hs, fun _ => ⟨hs, fun c => ?_⟩⟩
    cases c with
    | nil => exact hs
    | cons resp _ => trivial
  · exact hs

theorem everywhere_sendResponseByte {P : σ → Prop} {s : σ} (hs : P s) (resp : RisuResult) :
    (sendResponseByte s resp).Everywhere P fun _ => True := by
  refine ⟨hs, fun n => ?_⟩
  by_cases hn : n = 1
  · simp only [if_pos hn]
    trivial
  · simp only [if_neg hn]
    exact hs

/-! ### One exchange -/

section exchange

variable {τ α : Type} {R : σ → τ → Prop} {s : σ} {pkt : List Byte}
variable {f : RisuResult → Process σ Death (α × σ)} {r : Process τ Death (β × τ)}

/-- A relation between the visible states of two processes. -/
def Seen (R : σ → τ → Prop) (l : Process σ Death (α × σ)) (r : Process τ Death (β × τ)) : Prop :=
  R l.view r.view

/-- A packet, its consumption and the answer to it. -/
theorem settles_exchange {t : τ} {resp : RisuResult} {g : Unit → Process τ Death (β × τ)}
    {lf : Process σ Death (α × σ)} {rf : Process τ Death (β × τ)} (hlen : pkt.length < 2 ^ 31)
    (hq : r.Quiet) (he : Eats (fun p => R s p.view) r (frame pkt) (sendResponseByte t resp >>= g))
    (hR : R s (g ()).view)
    (hset : Settles (Seen R) (f (RisuResult.ofByte resp.toByte)) (g ()) lf rf) :
    Settles (Seen R) (sendDataPkt s pkt >>= f) r lf rf := by
  rw [sendDataPkt_bind hlen]
  exact .exchange rfl he.here hq he hR hset

/-- A packet whose receiver dies over it. -/
theorem settles_dies {q : Process τ Death (β × τ)} (hlen : pkt.length < 2 ^ 31) (hq : r.Quiet)
    (he : Eats (fun p => R s p.view) r (frame pkt) q) (hd : q.Done) :
    ∃ k, Settles (Seen R) (sendDataPkt s pkt >>= f) r (.read s 1 k) q := by
  rw [sendDataPkt_bind hlen]
  exact ⟨_, .dies rfl he.here hq he hd⟩

/-- A packet whose receiver has already ended. -/
theorem settles_unread (hlen : pkt.length < 2 ^ 31) (hR : R s r.view) (hd : r.Done) :
    ∃ k, Settles (Seen R) (sendDataPkt s pkt >>= f) r (.read s 1 k) r := by
  rw [sendDataPkt_bind hlen]
  exact ⟨_, .unread rfl hR hR hd⟩

end exchange

/-- Waiting for a packet is waiting for its length. -/
theorem recvDataPkt_reading (s : σ) (pktlen : ℕ) (f : RisuResult × List Byte → Process σ Death β) :
    ∃ k, (recvDataPkt s pktlen >>= f) = .read s 4 k := by
  rw [recvDataPkt, bind_assoc, recvBytes]
  exact ⟨_, rfl⟩

end Risu
