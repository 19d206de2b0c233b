import Risu.Lib.Chain
import Risu.Aarch64.Reginfo

/-!
# The records of a signal frame (aarch64)

The records stand in parts.  A part ends with a null record, and a record of it may say where the next part
is.

* `Context` — a record as the loop reads it;
* `Linked` — parts of records, from the first one on;
* `walk_linked` — the loop ends behind the last part, with the last record of each kind.
-/

namespace Risu.Aarch64

open Lib

/-! ### Parts -/

/-- What the loop reads of `struct _aarch64_ctx`; `datap` is that of `struct extra_context`. -/
structure Context where
  magic : BitVec 32
  size : BitVec 32
  datap : BitVec 64
  magic_ne : magic ≠ 0

namespace Context

/-- The record is in memory, at an address. -/
structure Stands (m : Mem) (ctx : BitVec 64) (c : Context) : Prop where
  ctx_ne : ctx ≠ 0
  magic : read32 m ctx = c.magic
  size : read32 m (ctx + 4) = c.size
  datap : c.magic = extraMagic → read64 m (ctx + 8) = c.datap

def next (ctx : BitVec 64) (c : Context) : BitVec 64 := ctx + c.size.setWidth 64

end Context

/-- The records of a kind. -/
def ofKind (magic : BitVec 32) (x : BitVec 64 × Context) : Bool := decide (x.2.magic = magic)

/-- The address of the last record of a kind, 0 for none. -/
def lastOf (magic : BitVec 32) (xs : List (BitVec 64 × Context)) : BitVec 64 :=
  ((xs.filter (ofKind magic)).getLast?.map Prod.fst).getD 0

/-- The part that the last extra record points to, 0 for none. -/
def extraOf (xs : List (BitVec 64 × Context)) : BitVec 64 :=
  ((xs.filter (ofKind extraMagic)).getLast?.map fun x => x.2.datap).getD 0

/-- The records from a part on, each with its address.  The part ends with a null record. -/
inductive Linked (m : Mem) : BitVec 64 → List (BitVec 64 × Context) → Prop
  | none : Linked m 0 []
  | part {ctx : BitVec 64} {cs : List Context} {xs : List (BitVec 64 × Context)}
      (chained : Chained (Context.Stands m) Context.next ctx cs)
      (end_ne : chainEnd Context.next ctx cs ≠ 0)
      (null : read32 m (chainEnd Context.next ctx cs) = 0)
      (rest : Linked m (extraOf (places Context.next ctx cs)) xs) :
      Linked m ctx (places Context.next ctx cs ++ xs)

/-! ### The loop -/

variable {m : Mem} {ctx : BitVec 64} {c : Context} {cs : List Context} {r : Records} {turns : ℕ}
  {xs : List (BitVec 64 × Context)}

/-- What the loop remembers of a record. -/
def Records.visit (r : Records) (x : BitVec 64 × Context) : Records where
  fp := if ofKind fpsimdMagic x then x.1 else r.fp
  sve := if ofKind sveMagic x then x.1 else r.sve
  extra := if ofKind extraMagic x then x.2.datap else r.extra

theorem walk_step (h : c.Stands m ctx) :
    walk m (turns + 1) ctx r = walk m turns (Context.next ctx c) (r.visit (ctx, c)) := by
  have hnext : ctx + (read32 m (ctx + 4)).setWidth 64 = Context.next ctx c := by rw [h.size]; rfl
  rw [walk]
  simp only [if_neg h.ctx_ne, h.magic, hnext, if_neg c.magic_ne]
  split_ifs with hfp hsve hextra
  · simp [Records.visit, ofKind, hfp, fpsimdMagic, sveMagic, extraMagic]
  · simp [Records.visit, ofKind, hsve, fpsimdMagic, sveMagic, extraMagic]
  · rw [h.datap hextra]
    simp [Records.visit, ofKind, hextra, fpsimdMagic, sveMagic, extraMagic]
  · simp [Records.visit, ofKind, hfp, hsve, hextra]

theorem foldl_visit (xs : List (BitVec 64 × Context)) (r : Records) :
    xs.foldl Records.visit r =
      ⟨((xs.filter (ofKind fpsimdMagic)).getLast?.map Prod.fst).getD r.fp,
        ((xs.filter (ofKind sveMagic)).getLast?.map Prod.fst).getD r.sve,
        ((xs.filter (ofKind extraMagic)).getLast?.map fun x => x.2.datap).getD r.extra⟩ := by
  rw [← foldl_ite_getLast, ← foldl_ite_getLast, ← foldl_ite_getLast]
  induction xs generalizing r with
  | nil => rfl
  | cons x xs ih => exact ih (r.visit x)

/-- The loop over one part. -/
theorem walk_part (h : Chained (Context.Stands m) Context.next ctx cs)
    (hne : chainEnd Context.next ctx cs ≠ 0) (hnull : read32 m (chainEnd Context.next ctx cs) = 0) :
    walk m (cs.length + (turns + 1)) ctx r =
      walk m turns ((places Context.next ctx cs).foldl Records.visit r).extra
        { (places Context.next ctx cs).foldl Records.visit r with extra := 0 } := by
  rw [walk_chained (fun n ctx r => walk m n ctx r) Records.visit (fun _ _ _ _ hc => walk_step hc) h, walk]
  simp only [if_neg hne, hnull]
  rw [if_neg (by decide), if_neg (by decide), if_neg (by decide), if_pos trivial]

theorem getLast_filter_append (k : BitVec 64 × Context → Bool) (xs ys : List (BitVec 64 × Context))
    (z : BitVec 64) :
    (((xs ++ ys).filter k).getLast?.map Prod.fst).getD z =
      ((ys.filter k).getLast?.map Prod.fst).getD (((xs.filter k).getLast?.map Prod.fst).getD z) := by
  rw [← foldl_ite_getLast, ← foldl_ite_getLast, ← foldl_ite_getLast, List.foldl_append]

/-- The loop over the parts that are linked, with what was found before. -/
theorem walk_linked_from (h : Linked m ctx xs) (fp sve : BitVec 64) :
    ∃ turns, walk m turns ctx ⟨fp, sve, 0⟩ =
      some ⟨((xs.filter (ofKind fpsimdMagic)).getLast?.map Prod.fst).getD fp,
        ((xs.filter (ofKind sveMagic)).getLast?.map Prod.fst).getD sve, 0⟩ := by
  induction h generalizing fp sve with
  | none => exact ⟨1, rfl⟩
  | @part ctx cs xs chained end_ne null _ ih =>
    obtain ⟨n, hn⟩ := ih (((places Context.next ctx cs).foldl Records.visit ⟨fp, sve, 0⟩).fp)
      (((places Context.next ctx cs).foldl Records.visit ⟨fp, sve, 0⟩).sve)
    refine ⟨cs.length + (n + 1), ?_⟩
    rw [walk_part chained end_ne null, getLast_filter_append, getLast_filter_append]
    rw [foldl_visit] at hn ⊢
    exact hn

/-- More turns change nothing. -/
theorem walk_mono {r' : Records} (h : walk m turns ctx r = some r') (k : ℕ) :
    walk m (turns + k) ctx r = some r' := by
  induction turns generalizing ctx r with
  | zero => cases h
  | succ n ih =>
    rw [Nat.add_right_comm, walk]
    rw [walk] at h
    split_ifs at h ⊢ <;> first | exact h | exact ih h

/-- **The loop over the records ends behind the last part, and finds the last record of each kind.** -/
theorem walk_linked (h : Linked m ctx xs) :
    (∃ turns r, walk m turns ctx ⟨0, 0, 0⟩ = some r) ∧
      ∀ turns r, walk m turns ctx ⟨0, 0, 0⟩ = some r →
        r = ⟨lastOf fpsimdMagic xs, lastOf sveMagic xs, 0⟩ := by
  obtain ⟨n, hn⟩ := walk_linked_from h 0 0
  refine ⟨⟨n, _, hn⟩, ?_⟩
  intro turns r hr
  have hmono := walk_mono hr n
  rw [Nat.add_comm, walk_mono hn turns] at hmono
  exact (Option.some.inj hmono).symm

/-- An extra record, which points to a part with a record of the floating-point registers. -/
def twoParts : Mem := fun a =>
  if a < 8192 then (leBytes 4 extraMagic.toNat ++ leBytes 4 16 ++ leBytes 8 8192).getD (a - 4096).toNat 0
  else (leBytes 4 fpsimdMagic.toNat ++ leBytes 4 528).getD (a - 8192).toNat 0

theorem linked_twoParts :
    Linked twoParts 4096
      [(4096, ⟨extraMagic, 16, 8192, by decide⟩), (8192, ⟨fpsimdMagic, 528, 0, by decide⟩)] := by
  have hsecond : Linked twoParts 8192 [(8192, ⟨fpsimdMagic, 528, 0, by decide⟩)] :=
    @Linked.part twoParts 8192 [⟨fpsimdMagic, 528, 0, by decide⟩] []
      (chained_cons.mpr ⟨⟨by decide, by decide +kernel, by decide +kernel, by decide⟩, chained_nil⟩)
      (by decide) (by decide +kernel) Linked.none
  exact @Linked.part twoParts 4096 [⟨extraMagic, 16, 8192, by decide⟩] _
    (chained_cons.mpr
      ⟨⟨by decide, by decide +kernel, by decide +kernel, fun _ => by decide +kernel⟩, chained_nil⟩)
    (by decide) (by decide +kernel) hsecond

theorem walk_linked_twoParts :
    (∃ turns r, walk twoParts turns 4096 ⟨0, 0, 0⟩ = some r) ∧
      ∀ turns r, walk twoParts turns 4096 ⟨0, 0, 0⟩ = some r → r = ⟨8192, 0, 0⟩ :=
  walk_linked linked_twoParts

end Risu.Aarch64
