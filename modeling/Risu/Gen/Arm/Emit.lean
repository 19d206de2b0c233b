import Risu.Gen.Arm.Writers
import Risu.Lib.BitField
import Risu.Lib.Log

/-!
# Emission and the mode (`$is_thumb`, `$bytecount`)

* `Out` — the state of the generator, with a log of what it emitted;
* `thumbAlign4`, `writeSwitchToThumb`, `writeSwitchToArm` — the switches;
* `bxWritePC` — where the branches of the switches go;
* `Consistent` — what is to hold of a log;
* `Tracked`, `Settled` — the invariant, and that no branch waits for its target;
* `Tracked.insn`, `Tracked.data`, `Tracked.switchToThumb`, `Tracked.switchToArm` — each step keeps it.
-/

namespace Risu.Gen.Arm

open Lib

/-! ### Emission -/

/-- What an entry is there for. -/
inductive Tag where
  | insn
  | data
  /-- `add r0, pc, #1`, `bx r0` and `eor r0, r0` of `write_switch_to_thumb`. -/
  | addPc
  | bxR0
  | clearR0
  /-- `bx pc` of `write_switch_to_arm`. -/
  | bxPc
  deriving DecidableEq

/-- The bytes of an entry. -/
def Code.size : Code → ℕ
  | .half _ => 2
  | .word _ => 4

def Code.isWord : Code → Bool
  | .half _ => false
  | .word _ => true

/-- An entry of the log, with `$bytecount` and `$is_thumb` when it was emitted. -/
structure Entry where
  offset : ℕ
  thumb : Bool
  tag : Tag
  code : Code

/-- The state of the generator. -/
structure Out where
  isThumb : Bool
  bytecount : ℕ
  log : List Entry

namespace Out

/-- `insn16` and `insn32` -/
def emit (o : Out) (tag : Tag) (c : Code) : Out :=
  { o with bytecount := o.bytecount + c.size, log := o.log ++ [⟨o.bytecount, o.isThumb, tag, c⟩] }

def emitAll (o : Out) (tag : Tag) (cs : List Code) : Out := cs.foldl (emit · tag) o

/-- ARM or Thumb. -/
def mode (o : Out) : Mode := if o.isThumb then .thumb else .arm

def thumbAlign4 (o : Out) : Out :=
  if o.bytecount % 4 ≠ 0 then o.emit .insn (.half 0xbf00#16) else o

def writeSwitchToThumb (o : Out) : Out :=
  if o.isThumb then o
  else
    let o := ((o.emit .addPc (.word 0xe28f0001#32)).emit .bxR0 (.word 0xe12fff10#32)).emit .clearR0
      (.half 0x4040#16)
    { o with isThumb := true }

def writeSwitchToArm (o : Out) : Out :=
  if o.isThumb then
    let o := (o.thumbAlign4.emit .bxPc (.half 0x4778#16)).emit .insn (.half 0xbf00#16)
    { o with isThumb := false }
  else o

end Out

/-! ### Branches -/

/-- Where `bx` goes, and in which mode; `none` is unpredictable. -/
def bxWritePC (v : BitVec 32) : Option (Mode × BitVec 32) :=
  if v.getLsbD 0 then some (.thumb, v &&& ~~~1#32)
  else if v.getLsbD 1 then none
  else some (.arm, v)

namespace Entry

/-- An instruction of ARM mode. -/
def isArmInsn (e : Entry) : Bool := e.code.isWord && e.tag ≠ .data

/-- An instruction of Thumb mode. -/
def isThumbInsn (e : Entry) : Bool := !e.code.isWord

/-- The address in an image that was loaded. -/
def address (load : BitVec 32) (e : Entry) : BitVec 32 := load + BitVec.ofNat 32 e.offset

end Entry

/-- What is to hold of a log, with the entries that are exempt: words of ARM mode are aligned and
emitted while `$is_thumb` is 0, and halfwords while it is 1; the branches of the switches go to the next
instruction in the other mode. -/
structure Consistent (exempt : Entry → Prop) (load : BitVec 32) (log : List Entry) : Prop where
  words : ∀ e ∈ log, e.code.isWord = true → e.thumb = false ∧ 4 ∣ e.offset
  halves : ∀ e ∈ log, e.code.isWord = false → e.thumb = true ∨ exempt e
  /-- `pc` is read as the address of `bx pc` and 4. -/
  toArm : ∀ front e rest, log = front ++ e :: rest → e.tag = .bxPc → 4 ∣ e.offset ∧
    ∃ n, rest.find? Entry.isArmInsn = some n ∧
      bxWritePC (e.address load + 4) = some (.arm, n.address load)
  /-- `pc` is read as the address of `add r0, pc, #1` and 8. -/
  toThumb : ∀ front e rest, log = front ++ e :: rest → e.tag = .addPc →
    rest.head?.map Entry.tag = some .bxR0 ∧ ∃ n, rest.find? Entry.isThumbInsn = some n ∧
      bxWritePC (e.address load + 8 + 1) = some (.thumb, n.address load)

theorem bxWritePC_arm {v : BitVec 32} (h : 4 ∣ v.toNat) : bxWritePC v = some (.arm, v) := by
  have h0 : v.getLsbD 0 = false := by
    rw [BitVec.getLsbD, Nat.testBit_zero]
    exact decide_eq_false (by omega)
  have h1 : v.getLsbD 1 = false := by
    rw [BitVec.getLsbD, Nat.testBit_succ, Nat.testBit_zero]
    exact decide_eq_false (by omega)
  rw [bxWritePC, h0, h1]
  rfl

theorem bxWritePC_thumb {v : BitVec 32} (h : 4 ∣ v.toNat) : bxWritePC (v + 1) = some (.thumb, v) := by
  have hnat : (v + 1).toNat = v.toNat + 1 := by
    have hv := v.isLt
    rw [BitVec.toNat_add]
    exact Nat.mod_eq_of_lt (show v.toNat + 1 < 2 ^ 32 by omega)
  have h0 : (v + 1).getLsbD 0 = true := by
    rw [BitVec.getLsbD, hnat, Nat.testBit_zero]
    exact decide_eq_true (by omega)
  have hbit : (v + 1) &&& 1#32 = 1#32 := by
    apply BitVec.eq_of_toNat_eq
    rw [BitVec.toNat_and, hnat]
    show (v.toNat + 1) &&& 1 = 1
    rw [Nat.and_one_is_mod]
    omega
  have hand : (v + 1) &&& ~~~1#32 = v := by
    rw [and_eq_sub, BitVec.not_not, hbit]
    exact BitVec.add_sub_cancel v 1#32
  rw [bxWritePC, h0, hand]
  rfl

/-! ### The invariant -/

/-- Where `bx pc` goes: the next instruction of ARM mode, or the place where it will be. -/
def ArmNext (o : Out) (e : Entry) (rest : List Entry) : Prop :=
  4 ∣ e.offset ∧
    ((∃ n, rest.find? Entry.isArmInsn = some n ∧ n.offset = e.offset + 4) ∨
      rest.find? Entry.isArmInsn = none ∧ o.isThumb = false ∧ o.bytecount = e.offset + 4)

/-- Where `bx r0` goes. -/
def ThumbNext (e : Entry) (rest : List Entry) : Prop :=
  4 ∣ e.offset ∧ rest.head?.map Entry.tag = some .bxR0 ∧ ∃ n, rest.find? Entry.isThumbInsn = some n ∧ n.offset = e.offset + 8

/-- An entry in its mode. -/
def Entry.Placed (e : Entry) : Prop :=
  (e.code.isWord = true → e.thumb = false ∧ 4 ∣ e.offset) ∧
    (e.code.isWord = false → e.thumb = true ∨ e.tag = .clearR0)

structure Tracked (o : Out) : Prop where
  even : 2 ∣ o.bytecount
  aligned : o.isThumb = false → 4 ∣ o.bytecount
  placed : ∀ e ∈ o.log, e.Placed
  toArm : Behind (fun e rest => e.tag = .bxPc → ArmNext o e rest) o.log
  toThumb : Behind (fun e rest => e.tag = .addPc → ThumbNext e rest) o.log

/-- No `bx pc` waits for its target. -/
def Settled (o : Out) : Prop :=
  Behind (fun e rest => e.tag = .bxPc → rest.find? Entry.isArmInsn ≠ none) o.log

theorem ArmNext.append {o o' : Out} {e : Entry} {rest : List Entry} (h : ArmNext o e rest)
    (hset : rest.find? Entry.isArmInsn ≠ none) (m : List Entry) : ArmNext o' e (rest ++ m) := by
  obtain ⟨hdvd, ⟨n, hn, hoff⟩ | ⟨hnone, -⟩⟩ := h
  · exact ⟨hdvd, .inl ⟨n, by rw [List.find?_append, hn]; rfl, hoff⟩⟩
  · exact absurd hnone hset

/-- The next instruction of ARM mode is where it was to be. -/
theorem ArmNext.append_insn {o o' : Out} {e x : Entry} {rest : List Entry} (h : ArmNext o e rest)
    (hx : x.isArmInsn = true) (hoff : x.offset = o.bytecount) (m : List Entry) :
    ArmNext o' e (rest ++ x :: m) := by
  obtain ⟨hdvd, ⟨n, hn, hnoff⟩ | ⟨hnone, -, hcount⟩⟩ := h
  · exact ⟨hdvd, .inl ⟨n, by rw [List.find?_append, hn]; rfl, hnoff⟩⟩
  · refine ⟨hdvd, .inl ⟨x, ?_, hoff.trans hcount⟩⟩
    rw [List.find?_append, hnone, List.find?_cons_of_pos hx]
    rfl

theorem ThumbNext.append {e : Entry} {rest : List Entry} (h : ThumbNext e rest)
    (m : List Entry) : ThumbNext e (rest ++ m) := by
  obtain ⟨hdvd, hbx, n, hn, hoff⟩ := h
  refine ⟨hdvd, ?_, n, by rw [List.find?_append, hn]; rfl, hoff⟩
  cases rest with
  | nil => cases hbx
  | cons x rest => exact hbx

theorem Tracked.settled_of_thumb {o : Out} (h : Tracked o) (ht : o.isThumb = true) : Settled o := by
  refine h.toArm.imp fun e rest hnext htag => ?_
  obtain ⟨-, ⟨n, hn, -⟩ | ⟨-, harm, -⟩⟩ := hnext htag
  · rw [hn]
    exact Option.some_ne_none n
  · rw [ht] at harm
    cases harm

theorem Settled.append {o o' : Out} (h : Settled o) {m : List Entry} (hlog : o'.log = o.log ++ m)
    (hm : ∀ e ∈ m, e.tag ≠ .bxPc) : Settled o' := by
  rw [Settled, hlog, behind_append]
  refine ⟨h.imp fun e rest hset htag => ?_, ?_⟩
  · obtain ⟨n, hn⟩ := Option.ne_none_iff_exists'.mp (hset htag)
    rw [List.find?_append, hn]
    exact Option.some_ne_none n
  · exact behind_iff.mpr fun front e rest hsplit htag =>
      absurd htag (hm e (hsplit ▸ List.mem_append_right _ List.mem_cons_self))

/-! ### Steps -/

/-- What all entries of code have in common. -/
theorem Tracked.emit {o : Out} (h : Tracked o) {tag : Tag} {c : Code} (htag : tag ≠ .bxPc)
    (htag' : tag ≠ .addPc) (hc : c.isWord = !o.isThumb)
    (hnext : (tag ≠ .data ∧ o.isThumb = false) ∨ Settled o) : Tracked (o.emit tag c) := by
  set x : Entry := ⟨o.bytecount, o.isThumb, tag, c⟩ with hx
  have hlog : (o.emit tag c).log = o.log ++ [x] := rfl
  have hcount : (o.emit tag c).bytecount = o.bytecount + c.size := rfl
  have hmode : (o.emit tag c).isThumb = o.isThumb := rfl
  refine ⟨?_, ?_, ?_, ?_, ?_⟩
  · rw [hcount]
    cases c with
    | half w => exact Nat.dvd_add h.even ⟨1, rfl⟩
    | word w => exact Nat.dvd_add h.even ⟨2, rfl⟩
  · intro harm
    rw [hmode] at harm
    rw [hcount]
    cases c with
    | half w =>
      rw [harm] at hc
      cases hc
    | word w => exact Nat.dvd_add (h.aligned harm) ⟨1, rfl⟩
  · intro e he
    rw [hlog, List.mem_append, List.mem_singleton] at he
    rcases he with he | rfl
    · exact h.placed e he
    · refine ⟨fun hword => ?_, fun hhalf => .inl ?_⟩
      · have harm : o.isThumb = false := by
          rw [← Bool.not_eq_true', ← hc]
          exact hword
        exact ⟨harm, h.aligned harm⟩
      · rw [← Bool.not_eq_false', ← hc]
        exact hhalf
  · rw [hlog, behind_append]
    refine ⟨?_, ⟨fun htag'' => absurd htag'' htag, trivial⟩⟩
    rcases hnext with ⟨hdata, harm⟩ | hset
    · have hinsn : x.isArmInsn = true := by
        rw [harm] at hc
        rw [Entry.isArmInsn, hc]
        simpa using hdata
      exact h.toArm.imp fun e rest harmnext he => (harmnext he).append_insn hinsn rfl []
    · exact (h.toArm.and hset).imp fun e rest hboth he => (hboth.1 he).append (hboth.2 he) _
  · rw [hlog, behind_append]
    exact ⟨h.toThumb.imp fun e rest hth he => (hth he).append _,
      ⟨fun htag'' => absurd htag'' htag', trivial⟩⟩

theorem settled_of_insn {o : Out} {x : Entry} {l : List Entry} (hlog : o.log = l ++ [x])
    (hx : x.isArmInsn = true) (htag : x.tag ≠ .bxPc) : Settled o := by
  rw [Settled, hlog, behind_append]
  refine ⟨behind_iff.mpr fun _ e rest _ _ hnone => ?_, ⟨fun h => absurd h htag, trivial⟩⟩
  exact List.find?_eq_none.mp hnone x (List.mem_append_right _ List.mem_cons_self) hx

/-- An instruction in its mode; no branch waits for its target then. -/
theorem Tracked.insn {o : Out} (h : Tracked o) {c : Code} (hc : c.isWord = !o.isThumb) :
    Tracked (o.emit .insn c) ∧ Settled (o.emit .insn c) := by
  cases ht : o.isThumb with
  | true =>
    have hset := h.settled_of_thumb ht
    refine ⟨h.emit (by decide) (by decide) hc (.inr hset), hset.append rfl fun e he => ?_⟩
    rw [List.mem_singleton.mp he]
    exact Tag.noConfusion
  | false =>
    refine ⟨h.emit (by decide) (by decide) hc (.inl ⟨by decide, ht⟩), settled_of_insn rfl ?_ Tag.noConfusion⟩
    rw [Entry.isArmInsn, hc, ht]
    rfl

/-- Data in ARM mode, behind an instruction. -/
theorem Tracked.data {o : Out} (h : Tracked o) (hset : Settled o) (harm : o.isThumb = false)
    (w : BitVec 32) : Tracked (o.emit .data (.word w)) ∧ Settled (o.emit .data (.word w)) := by
  have hc : (Code.word w).isWord = !o.isThumb := by
    rw [harm]
    rfl
  refine ⟨h.emit (by decide) (by decide) hc (.inr hset), hset.append rfl fun e he => ?_⟩
  rw [List.mem_singleton.mp he]
  exact Tag.noConfusion

theorem Tracked.thumbAlign4 {o : Out} (h : Tracked o) (ht : o.isThumb = true) :
    Tracked o.thumbAlign4 ∧ o.thumbAlign4.isThumb = true ∧ 4 ∣ o.thumbAlign4.bytecount := by
  rw [Out.thumbAlign4]
  split_ifs with hcount
  · refine ⟨(h.insn (by rw [ht]; rfl)).1, ht, ?_⟩
    have heven := h.even
    show 4 ∣ o.bytecount + 2
    omega
  · exact ⟨h, ht, Nat.dvd_of_mod_eq_zero (not_not.mp hcount)⟩

/-- `bx pc` waits for its target. -/
theorem Tracked.switchToArm {o : Out} (h : Tracked o) :
    Tracked o.writeSwitchToArm ∧ o.writeSwitchToArm.isThumb = false := by
  rw [Out.writeSwitchToArm]
  split_ifs with ht
  · obtain ⟨h', ht', hdvd⟩ := h.thumbAlign4 ht
    set p := o.thumbAlign4
    set x : Entry := ⟨p.bytecount, p.isThumb, .bxPc, .half 0x4778#16⟩ with hx
    set y : Entry := ⟨p.bytecount + 2, p.isThumb, .insn, .half 0xbf00#16⟩ with hy
    have hlog : ((p.emit .bxPc (.half 0x4778#16)).emit .insn (.half 0xbf00#16)).log = p.log ++ [x, y] :=
      List.append_assoc p.log [x] [y]
    have hcount : ((p.emit .bxPc (.half 0x4778#16)).emit .insn (.half 0xbf00#16)).bytecount =
        p.bytecount + 4 := rfl
    have hdvd' : 4 ∣ p.bytecount + 4 := Nat.dvd_add hdvd ⟨1, rfl⟩
    have hset := h'.settled_of_thumb ht'
    refine ⟨⟨?_, fun _ => hdvd', ?_, ?_, ?_⟩, rfl⟩
    · rw [hcount]
      omega
    · intro e he
      rw [hlog, List.mem_append] at he
      rcases he with he | he
      · exact h'.placed e he
      · have hhalf : e.code.isWord = false ∧ e.thumb = true := by
          rcases List.mem_cons.mp he with rfl | he
          · exact ⟨rfl, ht'⟩
          · rw [List.mem_singleton.mp he]
            exact ⟨rfl, ht'⟩
        exact ⟨fun hword => absurd (hhalf.1.symm.trans hword) Bool.false_ne_true, fun _ => .inl hhalf.2⟩
    · rw [hlog, behind_append]
      refine ⟨(h'.toArm.and hset).imp fun e rest hboth he => (hboth.1 he).append (hboth.2 he) _,
        fun _ => ⟨hdvd, .inr ⟨rfl, rfl, rfl⟩⟩, Tag.noConfusion, trivial⟩
    · rw [hlog, behind_append]
      exact ⟨h'.toThumb.imp fun e rest hth he => (hth he).append _,
        Tag.noConfusion, Tag.noConfusion, trivial⟩
  · exact ⟨h, Bool.not_eq_true _ ▸ ht⟩

/-- `eor r0, r0` is the target of `bx r0`. -/
theorem Tracked.switchToThumb {o : Out} (h : Tracked o) :
    Tracked o.writeSwitchToThumb ∧ o.writeSwitchToThumb.isThumb = true := by
  rw [Out.writeSwitchToThumb]
  split_ifs with ht
  · exact ⟨h, ht⟩
  · have harm : o.isThumb = false := Bool.not_eq_true _ ▸ ht
    have hdvd := h.aligned harm
    set x : Entry := ⟨o.bytecount, o.isThumb, .addPc, .word 0xe28f0001#32⟩ with hx
    set y : Entry := ⟨o.bytecount + 4, o.isThumb, .bxR0, .word 0xe12fff10#32⟩ with hy
    set z : Entry := ⟨o.bytecount + 8, o.isThumb, .clearR0, .half 0x4040#16⟩ with hz
    have hlog : (((o.emit .addPc (.word 0xe28f0001#32)).emit .bxR0 (.word 0xe12fff10#32)).emit .clearR0
        (.half 0x4040#16)).log = o.log ++ [x, y, z] := by
      show o.log ++ [x] ++ [y] ++ [z] = _
      rw [List.append_assoc, List.append_assoc]
      rfl
    refine ⟨⟨?_, Bool.noConfusion, ?_, ?_, ?_⟩, rfl⟩
    · show 2 ∣ o.bytecount + 10
      omega
    · intro e he
      rw [hlog, List.mem_append] at he
      rcases he with he | he
      · exact h.placed e he
      · rcases List.mem_cons.mp he with rfl | he
        · exact ⟨fun _ => ⟨harm, hdvd⟩, Bool.noConfusion⟩
        · rcases List.mem_cons.mp he with rfl | he
          · exact ⟨fun _ => ⟨harm, Nat.dvd_add hdvd ⟨1, rfl⟩⟩, Bool.noConfusion⟩
          · rw [List.mem_singleton.mp he]
            exact ⟨Bool.noConfusion, fun _ => .inr rfl⟩
    · rw [hlog, behind_append]
      exact ⟨h.toArm.imp fun e rest hnext he => (hnext he).append_insn rfl rfl _,
        Tag.noConfusion, Tag.noConfusion,
        Tag.noConfusion, trivial⟩
    · rw [hlog, behind_append]
      exact ⟨h.toThumb.imp fun e rest hth he => (hth he).append _,
        fun _ => ⟨hdvd, rfl, z, rfl, rfl⟩, Tag.noConfusion,
        Tag.noConfusion, trivial⟩

/-! ### Lists of code -/

/-- Code of one mode. -/
def InMode (thumb : Bool) (code : List Code) : Prop := ∀ c ∈ code, c.isWord = !thumb

theorem Tracked.emitAll {o : Out} (h : Tracked o) {code : List Code} (hcode : InMode o.isThumb code) :
    Tracked (o.emitAll .insn code) ∧ (o.emitAll .insn code).isThumb = o.isThumb ∧
      (code ≠ [] ∨ Settled o → Settled (o.emitAll .insn code)) := by
  induction code generalizing o with
  | nil => exact ⟨h, rfl, fun hset => hset.resolve_left fun hne => hne rfl⟩
  | cons c code ih =>
    obtain ⟨h', hset⟩ := h.insn (hcode c List.mem_cons_self)
    obtain ⟨htracked, hmode, hsettled⟩ := ih h' fun c' hc' => hcode c' (List.mem_cons_of_mem c hc')
    exact ⟨htracked, hmode, fun _ => hsettled (.inr hset)⟩

theorem Tracked.emitData {o : Out} (h : Tracked o) (hset : Settled o) (harm : o.isThumb = false)
    (ws : List (BitVec 32)) :
    Tracked (o.emitAll .data (ws.map .word)) ∧ Settled (o.emitAll .data (ws.map .word)) ∧
      (o.emitAll .data (ws.map .word)).isThumb = false := by
  induction ws generalizing o with
  | nil => exact ⟨h, hset, harm⟩
  | cons w ws ih =>
    obtain ⟨h', hset'⟩ := h.data hset harm w
    exact ih h' hset' harm

/-! ### The end -/

/-- What is tracked is consistent, when no branch waits. -/
theorem Tracked.consistent {o : Out} (h : Tracked o) (hset : Settled o) {load : BitVec 32}
    (hload : 4 ∣ load.toNat) : Consistent (·.tag = .clearR0) load o.log := by
  have hdvd {k : ℕ} (hk : 4 ∣ k) : 4 ∣ (load + BitVec.ofNat 32 k).toNat :=
    (@dvd_toNat_add 32 2 k (by decide) load).mpr (Nat.dvd_add hload hk)
  have haddr (k : ℕ) (d : ℕ) : load + BitVec.ofNat 32 k + BitVec.ofNat 32 d = load + BitVec.ofNat 32 (k + d) := by
    rw [BitVec.add_assoc, ← BitVec.ofNat_add]
  refine ⟨fun e he => (h.placed e he).1, fun e he => (h.placed e he).2, ?_, ?_⟩
  · intro front e rest hlog htag
    have hnext := behind_iff.mp (h.toArm.and hset) front e rest hlog
    obtain ⟨hoff, ⟨n, hn, hnoff⟩ | ⟨hnone, -⟩⟩ := hnext.1 htag
    · refine ⟨hoff, n, hn, ?_⟩
      have htarget : e.address load + 4 = n.address load := by
        rw [Entry.address, Entry.address, hnoff]
        exact haddr e.offset 4
      rw [htarget]
      exact bxWritePC_arm (hdvd (hnoff ▸ Nat.dvd_add hoff ⟨1, rfl⟩))
    · exact absurd hnone (hnext.2 htag)
  · intro front e rest hlog htag
    obtain ⟨hoff, hbx, n, hn, hnoff⟩ := behind_iff.mp h.toThumb front e rest hlog htag
    have htarget : e.address load + 8 = n.address load := by
      rw [Entry.address, Entry.address, hnoff]
      exact haddr e.offset 8
    refine ⟨hbx, n, hn, ?_⟩
    rw [htarget]
    exact bxWritePC_thumb (hdvd (hnoff ▸ Nat.dvd_add hoff ⟨2, rfl⟩))

end Risu.Gen.Arm
