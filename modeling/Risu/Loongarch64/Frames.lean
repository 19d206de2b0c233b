import Risu.Lib.Chain
import Risu.Loongarch64.Reginfo

/-!
# The contexts of a signal frame (loongarch64)

* `Context` — a context that is large enough for its registers;
* `Stops` — what `parse_extcontext` ends at;
* `parse_chained` — the loop ends there, with the last context of each kind;
* `reginfoInit_chained` — the widest context decides what is recorded.
-/

namespace Risu.Loongarch64

open Lib

/-! ### Chains of contexts -/

/-- What the loop reads of `struct sctx_info`, in front of a context. -/
structure Context where
  kind : Kind
  size : BitVec 32
  room : infoSize + kind.size ≤ size.toNat

namespace Context

/-- The context is in memory, at an address. -/
structure Stands (m : Mem) (info : BitVec 64) (c : Context) : Prop where
  magic : read32 m info = c.kind.magic
  size : read32 m (info + 4) = c.size

def next (info : BitVec 64) (c : Context) : BitVec 64 := info + c.size.setWidth 64

end Context

/-- There is no context at an address: a null one, an unknown one, or one that is too small. -/
def Stops (m : Mem) (info : BitVec 64) : Prop :=
  ∀ k, kindOf (read32 m info) = some k → (read32 m (info + 4)).toNat < infoSize + k.size

/-- The contexts of a kind. -/
def ofKind (k : Kind) (x : BitVec 64 × Context) : Bool := decide (x.2.kind = k)

/-- The address of the last context of a kind. -/
def lastOf (k : Kind) (xs : List (BitVec 64 × Context)) : Option (BitVec 64) :=
  (xs.filter (ofKind k)).getLast?.map Prod.fst

/-! ### The loop -/

variable {m : Mem} {info : BitVec 64} {c : Context} {cs : List Context} {extctx : ExtctxLayout}
  {turns : ℕ}

/-- What the loop remembers of a context. -/
def visit (extctx : ExtctxLayout) (x : BitVec 64 × Context) : ExtctxLayout :=
  Function.update extctx x.2.kind (some x.1)

theorem kindOf_magic (k : Kind) : (if k.magic = 0 then none else kindOf k.magic) = some k := by
  cases k <;> decide

theorem parse_step (h : c.Stands m info) :
    parseExtcontext m (turns + 1) info extctx =
      parseExtcontext m turns (Context.next info c) (visit extctx (info, c)) := by
  rw [parseExtcontext]
  simp only [h.magic, h.size, kindOf_magic, if_neg (Nat.not_lt.mpr c.room)]
  rfl

theorem parse_stops (h : Stops m info) : parseExtcontext m (turns + 1) info extctx = some extctx := by
  rw [parseExtcontext]
  by_cases hnull : read32 m info = 0
  · simp only [hnull, if_pos]
  · simp only [if_neg hnull]
    cases hk : kindOf (read32 m info) with
    | none => rfl
    | some k => exact if_pos (h k hk)

theorem foldl_visit (xs : List (BitVec 64 × Context)) (extctx : ExtctxLayout) (k : Kind) :
    xs.foldl visit extctx k =
      ((xs.filter (ofKind k)).getLast?.map fun x => some x.1).getD (extctx k) := by
  rw [← foldl_ite_getLast]
  induction xs generalizing extctx with
  | nil => rfl
  | cons x xs ih =>
    have hvisit : visit extctx x k = if ofKind k x then some x.1 else extctx k := by
      rw [visit, Function.update_apply, ofKind]
      by_cases hk : x.2.kind = k
      · simp [hk]
      · simp [hk, Ne.symm hk]
    rw [List.foldl_cons, List.foldl_cons, ih, hvisit]

theorem foldl_visit_none (xs : List (BitVec 64 × Context)) :
    xs.foldl visit (fun _ => none) = fun k => lastOf k xs := by
  funext k
  rw [foldl_visit, lastOf]
  cases (xs.filter (ofKind k)).getLast? <;> rfl

/-- More turns change nothing. -/
theorem parse_mono {extctx' : ExtctxLayout} (h : parseExtcontext m turns info extctx = some extctx')
    (k : ℕ) : parseExtcontext m (turns + k) info extctx = some extctx' := by
  induction turns generalizing info extctx with
  | zero => cases h
  | succ n ih =>
    rw [Nat.add_right_comm]
    rw [parseExtcontext] at h ⊢
    cases hk : (if read32 m info = 0 then none else kindOf (read32 m info)) with
    | none =>
      simp only [hk] at h ⊢
      exact h
    | some kind =>
      simp only [hk] at h ⊢
      split_ifs at h ⊢
      · exact h
      · exact ih h

/-- The loop ends behind the contexts, with the last one of each kind. -/
theorem parse_chained (h : Chained (Context.Stands m) Context.next info cs)
    (hstop : Stops m (chainEnd Context.next info cs)) :
    parseExtcontext m (cs.length + 1) info (fun _ => none) =
      some fun k => lastOf k (places Context.next info cs) := by
  rw [walk_chained (fun n info extctx => parseExtcontext m n info extctx) visit
    (fun _ _ _ _ hc => parse_step hc) h, parse_stops hstop, foldl_visit_none]

/-- A frame with these contexts. -/
theorem extctx_chained {u : Frame} (h : Chained (Context.Stands u.mem) Context.next u.extcontext cs)
    (hstop : Stops u.mem (chainEnd Context.next u.extcontext cs)) (k : Kind) :
    u.extctx k = lastOf k (places Context.next u.extcontext cs) := by
  have hparsed := parse_mono u.parsed (cs.length + 1)
  rw [Nat.add_comm, parse_mono (parse_chained h hstop) u.turns] at hparsed
  exact (congrFun (Option.some.inj hparsed) k).symm

/-! ### The context that is recorded -/

/-- The contexts of the most words for each register. -/
structure Widest (cs : List Context) (k : Kind) : Prop where
  mem : ∃ c ∈ cs, c.kind = k
  le : ∀ c ∈ cs, c.kind.lanes ≤ k.lanes

theorem isSome_lastOf {k : Kind} :
    (lastOf k (places Context.next info cs)).isSome = true ↔ ∃ c ∈ cs, c.kind = k := by
  rw [lastOf, Option.isSome_map, Option.isSome_iff_ne_none, Ne, List.getLast?_eq_none_iff,
    List.filter_eq_nil_iff]
  have hmap : (∃ c ∈ cs, c.kind = k) ↔ ∃ x ∈ places Context.next info cs, x.2.kind = k := by
    conv_lhs => rw [← @map_snd_places _ _ Context.next info cs]
    simp only [List.mem_map, exists_exists_and_eq_and]
  rw [hmap]
  simp [ofKind]

variable {u : Frame} {k : Kind}

theorem kind_of_widest (h : Chained (Context.Stands u.mem) Context.next u.extcontext cs)
    (hstop : Stops u.mem (chainEnd Context.next u.extcontext cs)) (hk : Widest cs k) :
    u.kind = some k := by
  have hsome (k' : Kind) : (u.extctx k').isSome = true ↔ ∃ c ∈ cs, c.kind = k' := by
    rw [extctx_chained h hstop, isSome_lastOf]
  have hwide (k' : Kind) (hlanes : k.lanes < k'.lanes) : ¬(u.extctx k').isSome = true := by
    rw [hsome]
    rintro ⟨c, hc, rfl⟩
    exact absurd (hk.le c hc) (Nat.not_le.mpr hlanes)
  have hmem := (hsome k).mpr hk.mem
  rw [Frame.kind]
  cases k with
  | lasx => rw [if_pos hmem]
  | lsx => rw [if_neg (hwide .lasx (by decide)), if_pos hmem]
  | fpu => rw [if_neg (hwide .lasx (by decide)), if_neg (hwide .lsx (by decide)), if_pos hmem]

theorem kind_of_nil (h : Stops u.mem u.extcontext) : u.kind = none := by
  have hnone (k : Kind) : ¬(u.extctx k).isSome = true := by
    rw [@extctx_chained [] u chained_nil h k, isSome_lastOf]
    simp
  rw [Frame.kind, if_neg (hnone _), if_neg (hnone _), if_neg (hnone _)]

/-- What is recorded of the context of a kind at an address. -/
structure Recorded (m : Mem) (k : Kind) (info : BitVec 64) (ri : Reginfo) : Prop where
  vl : ri.vl = k.bits
  fcc : ri.fcc = ctxReg m info (k.lanes * 32)
  fcsr : ri.fcsr = read32 m (info + BitVec.ofNat 64 infoSize + BitVec.ofNat 64 (8 * (k.lanes * 32 + 1)))
  lanes : k = .lasx → ∀ (i : Fin 32) (j : Fin 4), ri.vregs (lane i j) = ctxReg m info (4 * i + j)

theorem recorded_of_kind (h : u.kind = some k) (hinfo : u.extctx k = some info) (start : BitVec 64) :
    Recorded u.mem k info (reginfoInit start u) := by
  have hinit : (reginfoInit start u).vl = k.bits ∧
      (reginfoInit start u).fcc = ctxReg u.mem info (k.lanes * 32) ∧
      (reginfoInit start u).fcsr =
        read32 u.mem (info + BitVec.ofNat 64 infoSize + BitVec.ofNat 64 (8 * (k.lanes * 32 + 1))) := by
    rw [reginfoInit, h]
    simp only [hinfo]
    exact ⟨rfl, rfl, rfl⟩
  refine ⟨hinit.1, hinit.2.1, hinit.2.2, ?_⟩
  rintro rfl i j
  rw [vregs_lasx h, Frame.lane, hinfo]
  rfl

/-- **The loop over the contexts ends, and of all contexts the last one of the widest kind is recorded.** -/
theorem reginfoInit_chained (h : Chained (Context.Stands m) Context.next info cs)
    (hstop : Stops m (chainEnd Context.next info cs)) (start : BitVec 64) :
    (∃ turns extctx, parseExtcontext m turns info (fun _ => none) = some extctx) ∧
      ∀ u : Frame, u.mem = m → u.extcontext = info →
        (cs = [] → (reginfoInit start u).vl = 0 ∧ (reginfoInit start u).fcc = 0 ∧
          (reginfoInit start u).fcsr = 0 ∧ ∀ i, (reginfoInit start u).vregs i = 0) ∧
        ∀ k, Widest cs k → ∃ a, lastOf k (places Context.next info cs) = some a ∧
          Recorded m k a (reginfoInit start u) := by
  refine ⟨⟨_, _, parse_chained h hstop⟩, ?_⟩
  rintro u rfl rfl
  constructor
  · rintro rfl
    rw [reginfoInit, kind_of_nil hstop]
    exact ⟨rfl, rfl, rfl, fun _ => rfl⟩
  · intro k hk
    obtain ⟨a, ha⟩ := Option.isSome_iff_exists.mp (isSome_lastOf.mpr hk.mem)
    exact ⟨a, ha, recorded_of_kind (kind_of_widest h hstop hk) ((extctx_chained h hstop k).trans ha) start⟩

/-- The memory of a frame with two contexts, of zeros. -/
def twoContexts : Mem := fun a =>
  if a < 8192 then (leBytes 4 Kind.fpu.magic.toNat ++ leBytes 4 4096).getD (a - 4096).toNat 0
  else (leBytes 4 Kind.lsx.magic.toNat ++ leBytes 4 1024).getD (a - 8192).toNat 0

theorem reginfoInit_chained_twoContexts :
    (∃ turns extctx, parseExtcontext twoContexts turns 4096 (fun _ => none) = some extctx) ∧
      ∀ u : Frame, u.mem = twoContexts → u.extcontext = 4096 → ∃ a, some 8192#64 = some a ∧
        Recorded twoContexts .lsx a (reginfoInit 0 u) := by
  have h := @reginfoInit_chained twoContexts 4096 [⟨.fpu, 4096, by decide⟩, ⟨.lsx, 1024, by decide⟩]
    (chained_cons.mpr ⟨⟨by decide +kernel, by decide +kernel⟩,
      chained_cons.mpr ⟨⟨by decide +kernel, by decide +kernel⟩, chained_nil⟩⟩)
    (by
      intro k hk
      have hnull : read32 twoContexts (8192 + 1024) = 0 := by decide +kernel
      rw [show chainEnd Context.next 4096 [⟨.fpu, 4096, by decide⟩, ⟨.lsx, 1024, by decide⟩] =
        (8192 + 1024 : BitVec 64) from rfl, hnull] at hk
      cases hk) 0
  exact ⟨h.1, fun u hm hu => (h.2 u hm hu).2 .lsx
    ⟨⟨⟨.lsx, 1024, by decide⟩, by simp, rfl⟩, by simp [Kind.lanes]⟩⟩

end Risu.Loongarch64
