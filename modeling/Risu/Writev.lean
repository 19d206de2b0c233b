import Risu.Comms

/-!
# Short writes (`safe_writev` in `comms.c`)

`safe_writev` hands a list of buffers to `writev` and goes on after a short count.  It decreases
`iov_len` of the buffer the count stopped in, and leaves `iov_base` alone: the next call hands over
that buffer from its beginning again.  The loop is modelled over the outcomes of its system calls,
and `writev_once_iff` says when the bytes handed over are the message all the same.

* `Iovec` — `struct iovec`, with the bytes that `iov_base` points at;
* `advance` — the inner loop, which moves forward through the vector;
* `writevLoop`, `safeWritev`;
* `InPlace` — every count takes bytes that were due, which is certain as long as no count stops inside
  a buffer (`inPlace_of_stopsBetween`);
* `safeWritev_frame` — the one write of `sendDataPkt`, when the kernel has room for it.
-/

namespace Risu

open Lib Lib.Process

/-! ### The loop -/

structure Iovec where
  /-- The bytes at `iov_base`. -/
  base : List Byte
  /-- `iov_len` -/
  len : ℕ
  len_le : len ≤ base.length

namespace Iovec

/-- A whole buffer. -/
def ofBuffer (bs : List Byte) : Iovec := ⟨bs, bs.length, le_rfl⟩

/-- What the vector hands over. -/
def bytes (v : Iovec) : List Byte := v.base.take v.len

/-- What is still to be sent of the buffer. -/
def due (v : Iovec) : List Byte := v.base.drop (v.base.length - v.len)

/-- `iov->iov_len -= i`. -/
def shorten (v : Iovec) (i : ℕ) : Iovec := ⟨v.base, v.len - i, (Nat.sub_le _ _).trans v.len_le⟩

end Iovec

/-- What a call of `writev` can come to: `-1` with `EINTR`, `-1` with another error, or a count.  The
kernel has room for `n` bytes, and takes no more than it is handed. -/
inductive WritevOutcome where
  | interrupted
  | failed
  | took (n : ℕ) (pos : 0 < n)

/-- The bytes of all vectors, as `writev` sees them. -/
def handed (iov : List Iovec) : List Byte := (iov.map Iovec.bytes).flatten

/-- The bytes that a message still lacks. -/
def dueBytes (iov : List Iovec) : List Byte := (iov.map Iovec.due).flatten

/-- Move forward through `iov` to account for data transferred; `none` when `iovcnt` gets to 0. -/
def advance : ℕ → List Iovec → Option (List Iovec)
  | _, [] => none
  | i, v :: vs => if v.len ≤ i then advance (i - v.len) vs else some (v.shorten i :: vs)

/-- How `safe_writev` ends: with a value and the bytes the kernel took, not yet, or by an access past
an empty vector. -/
inductive WritevEnd where
  | returned (r : BitVec 32) (taken : List Byte)
  | running
  | overrun

/-- The count that a call returns. -/
def writevCount (n : ℕ) (iov : List Iovec) : ℕ := min n (handed iov).length

/-- The loop, with `r` and the bytes taken so far. -/
def writevLoop : List WritevOutcome → BitVec 32 → List Byte → List Iovec → WritevEnd
  | [], _, _, _ => .running
  | .interrupted :: os, r, taken, iov => writevLoop os r taken iov
  | .failed :: _, _, taken, _ => .returned (-1) taken
  | .took n _ :: os, r, taken, iov =>
    let i := writevCount n iov
    let taken := taken ++ (handed iov).take i
    match advance i iov with
    | none => .returned (r + BitVec.ofNat 32 i) taken
    | some iov => writevLoop os (r + BitVec.ofNat 32 i) taken iov

def safeWritev (os : List WritevOutcome) (iov : List Iovec) : WritevEnd :=
  if iov = [] then .overrun else writevLoop os 0 [] iov

/-! ### One call -/

@[simp] theorem Iovec.bytes_length (v : Iovec) : v.bytes.length = v.len := by
  rw [Iovec.bytes, List.length_take]
  exact Nat.min_eq_left v.len_le

@[simp] theorem Iovec.due_length (v : Iovec) : v.due.length = v.len := by
  have := v.len_le
  rw [Iovec.due, List.length_drop]
  omega

theorem Iovec.due_shorten (v : Iovec) {i : ℕ} (h : i ≤ v.len) :
    (v.shorten i).due = v.due.drop i := by
  have := v.len_le
  simp only [Iovec.due, Iovec.shorten, List.drop_drop]
  congr 1
  omega

theorem dueBytes_length (iov : List Iovec) : (dueBytes iov).length = (handed iov).length := by
  simp [dueBytes, handed, List.length_flatten, Function.comp_def]

/-- The end of the vector is reached by the whole count only. -/
theorem advance_none {i : ℕ} {iov : List Iovec} (h : advance i iov = none) :
    (handed iov).length ≤ i := by
  induction iov generalizing i with
  | nil => simp [handed]
  | cons v vs ih =>
    simp only [advance] at h
    split_ifs at h with hle
    have := ih h
    simp only [handed, List.map_cons, List.flatten_cons, List.length_append,
      Iovec.bytes_length] at this ⊢
    omega

/-- What is left of a message after a short count. -/
theorem advance_some {i : ℕ} {iov iov' : List Iovec} (h : advance i iov = some iov') :
    dueBytes iov' = (dueBytes iov).drop i := by
  induction iov generalizing i with
  | nil => cases h
  | cons v vs ih =>
    simp only [advance] at h
    split_ifs at h with hle
    · rw [ih h]
      simp only [dueBytes, List.map_cons, List.flatten_cons]
      have hnil : v.due.drop i = [] := List.drop_eq_nil_of_le (by simpa using hle)
      rw [List.drop_append, hnil, List.nil_append, Iovec.due_length]
    · cases h
      simp only [dueBytes, List.map_cons, List.flatten_cons]
      rw [Iovec.due_shorten v (by omega), List.drop_append_of_le_length (by simp; omega)]

/-! ### Runs -/

/-- Nothing has been sent of these buffers. -/
def Fresh (iov : List Iovec) : Prop := ∀ v ∈ iov, v.len = v.base.length

theorem Fresh.handed_eq {iov : List Iovec} (h : Fresh iov) : handed iov = dueBytes iov := by
  have hmap : iov.map Iovec.bytes = iov.map Iovec.due := by
    apply List.map_congr_left
    intro v hv
    simp [Iovec.bytes, Iovec.due, h v hv]
  rw [handed, dueBytes, hmap]

/-- Only the buffer in front can have been sent in part. -/
theorem advance_fresh {i : ℕ} {iov iov' : List Iovec} (h : advance i iov = some iov')
    (hf : Fresh iov.tail) : Fresh iov'.tail := by
  induction iov generalizing i with
  | nil => cases h
  | cons v vs ih =>
    simp only [advance] at h
    split_ifs at h with hle
    · exact ih h fun u hu => hf u (List.mem_of_mem_tail hu)
    · cases h
      exact hf

/-- Whether a count takes bytes that were due is decided by the buffer in front. -/
theorem take_handed_iff {v : Iovec} {vs : List Iovec} (hf : Fresh vs) (i : ℕ) :
    (handed (v :: vs)).take i = (dueBytes (v :: vs)).take i ↔ v.bytes.take i = v.due.take i := by
  have hlen : (v.bytes.take i).length = (v.due.take i).length := by simp
  simp only [handed, dueBytes, List.map_cons, List.flatten_cons, List.take_append,
    Iovec.bytes_length, Iovec.due_length]
  rw [show (vs.map Iovec.bytes).flatten = (vs.map Iovec.due).flatten from hf.handed_eq]
  exact List.append_left_inj _

/-- Every count takes bytes that were due: where the buffer in front has been sent in part, the bytes
at its beginning are those that come next. -/
def InPlace : List WritevOutcome → List Iovec → Prop
  | [], _ => True
  | .interrupted :: os, iov => InPlace os iov
  | .failed :: _, _ => True
  | .took n _ :: os, iov =>
    (∀ v ∈ iov.head?, v.bytes.take (writevCount n iov) = v.due.take (writevCount n iov)) ∧
      ∀ iov', advance (writevCount n iov) iov = some iov' → InPlace os iov'

theorem inPlace_took {n : ℕ} {pos : 0 < n} {os : List WritevOutcome} {iov : List Iovec}
    (hf : Fresh iov.tail) :
    InPlace (.took n pos :: os) iov ↔
      (handed iov).take (writevCount n iov) = (dueBytes iov).take (writevCount n iov) ∧
        ∀ iov', advance (writevCount n iov) iov = some iov' → InPlace os iov' := by
  rw [InPlace]
  refine and_congr_left fun _ => ?_
  cases iov with
  | nil => simp [handed, dueBytes]
  | cons v vs => simpa using (take_handed_iff hf _).symm

/-- **A run of the loop**: the value is the number of bytes, as an `int`; the bytes taken are as many
as were due, and they are those that were due exactly if every count takes bytes that were due. -/
theorem writevLoop_returned {os : List WritevOutcome} (hos : .failed ∉ os) {iov : List Iovec}
    (hf : Fresh iov.tail) {r r' : BitVec 32} {taken taken' : List Byte}
    (h : writevLoop os r taken iov = .returned r' taken') :
    r' = r + BitVec.ofNat 32 (dueBytes iov).length ∧
      ∃ sent, taken' = taken ++ sent ∧ sent.length = (dueBytes iov).length ∧
        (sent = dueBytes iov ↔ InPlace os iov) := by
  induction os generalizing iov r taken with
  | nil => cases h
  | cons o os ih =>
    have hos' : .failed ∉ os := fun hmem => hos (List.mem_cons_of_mem _ hmem)
    cases o with
    | interrupted => exact ih hos' hf h
    | failed => exact absurd List.mem_cons_self hos
    | took n pos =>
      simp only [writevLoop] at h
      rw [inPlace_took hf]
      have hlen := dueBytes_length iov
      have hcount : writevCount n iov ≤ (handed iov).length := Nat.min_le_right _ _
      have htake : ((handed iov).take (writevCount n iov)).length = writevCount n iov := by
        rw [List.length_take]
        omega
      cases hadv : advance (writevCount n iov) iov with
      | none =>
        simp only [hadv, WritevEnd.returned.injEq] at h
        obtain ⟨rfl, rfl⟩ := h
        have hall : writevCount n iov = (dueBytes iov).length := by
          have := advance_none hadv
          omega
        refine ⟨by rw [hall], _, rfl, by omega, ?_⟩
        rw [List.take_of_length_le (l := dueBytes iov) (by omega)]
        simp
      | some iov' =>
        simp only [hadv] at h
        have hdue := advance_some hadv
        have hdue' : (dueBytes iov').length = (dueBytes iov).length - writevCount n iov := by
          rw [hdue, List.length_drop]
        obtain ⟨hr, sent, htaken, hsent, hiff⟩ := ih hos' (advance_fresh hadv hf) h
        refine ⟨?_, (handed iov).take (writevCount n iov) ++ sent, ?_, ?_, ?_⟩
        · rw [hr, BitVec.add_assoc, ← BitVec.ofNat_add, hdue']
          congr 2
          omega
        · rw [htaken, List.append_assoc]
        · rw [List.length_append, htake, hsent, hdue']
          omega
        · have hsplit := List.take_append_drop (writevCount n iov) (dueBytes iov)
          have htake' : ((dueBytes iov).take (writevCount n iov)).length = writevCount n iov := by
            rw [List.length_take]
            omega
          simp only [Option.some.injEq, forall_eq']
          rw [← hiff, hdue]
          refine ⟨?_, ?_⟩
          · intro heq
            rw [← hsplit] at heq
            exact List.append_inj heq (by rw [htake, htake'])
          · intro heq
            rw [heq.1, heq.2, hsplit]

theorem fresh_ofBuffer (buffers : List (List Byte)) : Fresh (buffers.map Iovec.ofBuffer) := by
  intro v hv
  obtain ⟨bs, -, rfl⟩ := List.mem_map.mp hv
  rfl

theorem handed_ofBuffer (buffers : List (List Byte)) :
    handed (buffers.map Iovec.ofBuffer) = buffers.flatten := by
  rw [handed, List.map_map]
  congr 1
  conv_rhs => rw [← List.map_id buffers]
  apply List.map_congr_left
  intro bs _
  exact List.take_length

theorem writevLoop_start {os : List WritevOutcome} {iov : List Iovec} {r : BitVec 32}
    {taken : List Byte} (h : safeWritev os iov = .returned r taken) :
    writevLoop os 0 [] iov = .returned r taken := by
  unfold safeWritev at h
  split_ifs at h
  exact h

/-- **The message is sent exactly once, unless a count stops inside a buffer.**  For every list of
buffers and every sequence of short counts and interruptions after which `safe_writev` returns: the
value returned is negative, or it is the length of the message and the kernel took the message, if
and only if the length is negative as an `int`, or is an `int` and every count takes bytes that were
due. -/
theorem writev_once_iff (buffers : List (List Byte)) (os : List WritevOutcome)
    (hos : .failed ∉ os) (r : BitVec 32) (taken : List Byte)
    (h : safeWritev os (buffers.map Iovec.ofBuffer) = .returned r taken) :
    (0 ≤ r.toInt → taken = buffers.flatten ∧ r.toInt = buffers.flatten.length) ↔
      2 ^ 31 ≤ buffers.flatten.length % 2 ^ 32 ∨
        buffers.flatten.length < 2 ^ 31 ∧ InPlace os (buffers.map Iovec.ofBuffer) := by
  have hfresh := fresh_ofBuffer buffers
  have hdue : dueBytes (buffers.map Iovec.ofBuffer) = buffers.flatten := by
    rw [← hfresh.handed_eq, handed_ofBuffer]
  obtain ⟨hr, sent, htaken, -, hiff⟩ := writevLoop_returned hos
    (fun v hv => hfresh v (List.mem_of_mem_tail hv)) (writevLoop_start h)
  rw [hdue] at hr hiff
  rw [List.nil_append] at htaken
  subst htaken
  rw [hiff]
  have hnat : r.toNat = buffers.flatten.length % 2 ^ 32 := by
    simp [hr]
  rw [BitVec.toInt_eq_toNat_cond, hnat]
  generalize buffers.flatten.length = n
  by_cases hneg : 2 ^ 31 ≤ n % 2 ^ 32
  · rw [if_neg (by omega)]
    exact ⟨fun _ => .inl hneg, fun _ hnonneg => by omega⟩
  · rw [if_pos (by omega)]
    refine ⟨?_, ?_⟩
    · intro hprop
      obtain ⟨hin, hval⟩ := hprop (by omega)
      exact .inr ⟨by omega, hin⟩
    · intro hcond _
      rcases hcond with hlarge | ⟨hsmall, hin⟩
      · omega
      · exact ⟨hin, by omega⟩

/-- The length in one call and the data in the next: no count stops inside a buffer. -/
theorem writev_once_boundary :
    safeWritev [.took 2 (by decide), .interrupted, .took 9 (by decide)]
      ([[0, 1], [7]].map Iovec.ofBuffer) = .returned 3 [0, 1, 7] ∧
    InPlace [.took 2 (by decide), .interrupted, .took 9 (by decide)]
      ([[0, 1], [7]].map Iovec.ofBuffer) := by
  have h : safeWritev [.took 2 (by decide), .interrupted, .took 9 (by decide)]
      ([[0, 1], [7]].map Iovec.ofBuffer) = .returned 3 [0, 1, 7] := rfl
  have honce := writev_once_iff [[0, 1], [7]] _ (by simp) 3 [0, 1, 7] h
  refine ⟨h, ?_⟩
  rcases honce.mp fun _ => ⟨rfl, rfl⟩ with hlarge | ⟨-, hin⟩
  · exact absurd hlarge (by decide)
  · exact hin

/-- A buffer of two bytes, taken in two calls, is sent as its first byte twice. -/
theorem writev_stopped_inside :
    safeWritev [.took 1 (by decide), .took 1 (by decide)] ([[1, 2]].map Iovec.ofBuffer) =
        .returned 2 [1, 1] ∧
      ¬ (0 ≤ (2 : BitVec 32).toInt →
        [1, 1] = ([[1, 2]] : List (List Byte)).flatten ∧
          (2 : BitVec 32).toInt = ([[1, 2]] : List (List Byte)).flatten.length) :=
  ⟨rfl, by decide⟩

/-! ### Whole writes -/

/-- No count stops inside a buffer. -/
def StopsBetween : List WritevOutcome → List Iovec → Prop
  | [], _ => True
  | .interrupted :: os, iov => StopsBetween os iov
  | .failed :: _, _ => True
  | .took n _ :: os, iov =>
    ∀ iov', advance (writevCount n iov) iov = some iov' → Fresh iov' ∧ StopsBetween os iov'

/-- As long as no count stops inside a buffer, every count takes bytes that were due. -/
theorem inPlace_of_stopsBetween {os : List WritevOutcome} {iov : List Iovec} (hf : Fresh iov)
    (h : StopsBetween os iov) : InPlace os iov := by
  induction os generalizing iov with
  | nil => trivial
  | cons o os ih =>
    cases o with
    | interrupted => exact ih hf h
    | failed => trivial
    | took n pos =>
      refine ⟨?_, ?_⟩
      · intro v hv
        have hlen := hf v (List.mem_of_mem_head? hv)
        simp [Iovec.bytes, Iovec.due, hlen]
      · intro iov' hadv
        obtain ⟨hf', hstops⟩ := h iov' hadv
        exact ih hf' hstops

theorem advance_all {i : ℕ} {iov : List Iovec} (h : (handed iov).length ≤ i) :
    advance i iov = none := by
  induction iov generalizing i with
  | nil => rfl
  | cons v vs ih =>
    simp only [handed, List.map_cons, List.flatten_cons, List.length_append,
      Iovec.bytes_length] at h
    rw [advance, if_pos (by omega)]
    exact ih (by rw [handed]; omega)

/-- When the kernel has room for the packet, `safe_writev` is the one write of `sendDataPkt`. -/
theorem safeWritev_frame (pkt : List Byte) {n : ℕ} (pos : 0 < n) (h : (frame pkt).length ≤ n)
    (os : List WritevOutcome) :
    safeWritev (.took n pos :: os) ([bytesOf .big 4 pkt.length, pkt].map Iovec.ofBuffer) =
      .returned (BitVec.ofNat 32 (frame pkt).length) (frame pkt) := by
  have hframe : handed ([bytesOf .big 4 pkt.length, pkt].map Iovec.ofBuffer) = frame pkt := by
    rw [handed_ofBuffer]
    simp [frame]
  have hcount : writevCount n ([bytesOf .big 4 pkt.length, pkt].map Iovec.ofBuffer) =
      (frame pkt).length := by
    rw [writevCount, hframe]
    exact Nat.min_eq_right h
  rw [safeWritev, if_neg (by simp), writevLoop, hcount, advance_all (by rw [hframe]), hframe]
  simp

end Risu
