import Risu.Lib.ByteOrder
import Risu.Lib.Partial

/-!
# Code images

An image is a list of bytes at an address.  A machine fetches words of 32 bits at its program counter
and executes them; code behind code runs on, and a jump leads over data.

* `fetch`, `Machine.step` — one step in an image;
* `Machine.Straight` — words that are executed one behind the other;
* `Block` — code with data in it, and a jump over the data;
* `Block.visits` — a run through a block;
* `opMachine`, `Block.runs_of_ops` — the same for a machine that decodes its words.
-/

namespace Risu.Lib

variable {n : ℕ} {σ : Type}

/-! ### Images -/

/-- Parts of one length. -/
theorem length_flatMap_const {α β : Type} {f : α → List β} {k : ℕ} (h : ∀ x, (f x).length = k)
    (l : List α) : (l.flatMap f).length = k * l.length := by
  induction l with
  | nil => rfl
  | cons x l ih =>
    rw [List.flatMap_cons, List.length_append, h, ih, List.length_cons, Nat.mul_succ, Nat.add_comm]

/-- The bytes of words. -/
def wordBytes (ws : List (BitVec 32)) : List Byte := ws.flatMap fun w => leBytes 4 w.toNat

@[simp] theorem wordBytes_nil : wordBytes [] = [] := rfl

@[simp] theorem wordBytes_cons (w : BitVec 32) (ws : List (BitVec 32)) :
    wordBytes (w :: ws) = leBytes 4 w.toNat ++ wordBytes ws := rfl

@[simp] theorem wordBytes_append (ws vs : List (BitVec 32)) :
    wordBytes (ws ++ vs) = wordBytes ws ++ wordBytes vs := List.flatMap_append

@[simp] theorem length_wordBytes (ws : List (BitVec 32)) : (wordBytes ws).length = 4 * ws.length :=
  length_flatMap_const (fun _ => leBytes_length _ _) ws

/-- The word at an address of an image. -/
def fetch (base : BitVec n) (image : List Byte) (pc : BitVec n) : Option (BitVec 32) :=
  let offset := (pc - base).toNat
  if offset + 4 ≤ image.length then
    some (BitVec.ofNat 32 (leValue ((image.drop offset).take 4)))
  else none

theorem fetch_append {front rest : List Byte} (base : BitVec n) (w : BitVec 32)
    (h : front.length < 2 ^ n) :
    fetch base (front ++ leBytes 4 w.toNat ++ rest) (base + BitVec.ofNat n front.length) = some w := by
  have hoff : (base + BitVec.ofNat n front.length - base).toNat = front.length := by
    rw [BitVec.add_comm, BitVec.add_sub_cancel, BitVec.toNat_ofNat, Nat.mod_eq_of_lt h]
  have hbytes : ((front ++ leBytes 4 w.toNat ++ rest).drop front.length).take 4 = leBytes 4 w.toNat := by
    rw [List.append_assoc, List.drop_left, List.take_append_of_le_length (by rw [leBytes_length]),
      List.take_of_length_le (by rw [leBytes_length])]
  rw [fetch, hoff, hbytes, if_pos (by simp only [List.length_append, leBytes_length]; omega)]
  exact congrArg some (ofNat_valueOf_bytesOf .little 4 w)

/-! ### Machines -/

/-- What executes words: where it stands, and what a word does; `none` if it is no instruction. -/
structure Machine (n : ℕ) (σ : Type) where
  pc : σ → BitVec n
  exec : BitVec 32 → σ → Option σ

namespace Machine

variable (M : Machine n σ)

def step (base : BitVec n) (image : List Byte) (s : σ) : Option σ :=
  (fetch base image (M.pc s)).bind fun w => M.exec w s

/-- Words that are executed one behind the other. -/
inductive Straight : σ → List (BitVec 32) → σ → Prop where
  | nil (s : σ) : Straight s [] s
  | cons {s t u : σ} {w : BitVec 32} {ws : List (BitVec 32)} : M.exec w s = some t →
      M.pc t = M.pc s + BitVec.ofNat n 4 → Straight t ws u → Straight s (w :: ws) u

end Machine

/-- The addresses of words. -/
def addresses (a : BitVec n) (count : ℕ) : List (BitVec n) :=
  (List.range count).map fun i => a + BitVec.ofNat n (4 * i)

theorem addresses_succ (a : BitVec n) (count : ℕ) :
    addresses a (count + 1) = a :: addresses (a + BitVec.ofNat n 4) count := by
  rw [addresses, addresses, List.range_succ_eq_map, List.map_cons, List.map_map]
  refine congrArg₂ List.cons (by simp) (List.map_congr_left fun i _ => ?_)
  rw [Function.comp_apply, BitVec.add_assoc, ← BitVec.ofNat_add, Nat.mul_succ, Nat.add_comm]

variable {M : Machine n σ} {s s₁ s₂ t : σ} {ws : List (BitVec 32)} {base : BitVec n}

theorem Machine.Straight.pc_eq (h : M.Straight s ws t) :
    M.pc t = M.pc s + BitVec.ofNat n (4 * ws.length) := by
  induction h with
  | nil s => simp
  | @cons s t u w ws _ hpc _ ih =>
    rw [ih, hpc, BitVec.add_assoc, ← BitVec.ofNat_add, List.length_cons, Nat.mul_succ, Nat.add_comm 4]

/-- In an image, straight code is executed. -/
theorem Machine.Straight.visits {front rest : List Byte} (h : M.Straight s ws t)
    (hpc : M.pc s = base + BitVec.ofNat n front.length)
    (hlen : (front ++ wordBytes ws ++ rest).length ≤ 2 ^ n) :
    Visits (M.step base (front ++ wordBytes ws ++ rest)) M.pc s (addresses (M.pc s) ws.length) t := by
  induction h generalizing front with
  | nil s => exact .refl s
  | @cons s t u w ws hexec hnext _ ih =>
    rw [wordBytes_cons, List.length_append, List.length_append, List.length_append,
      leBytes_length] at hlen
    have himage : front ++ wordBytes (w :: ws) ++ rest =
        front ++ leBytes 4 w.toNat ++ (wordBytes ws ++ rest) := by simp
    have hstep : M.step base (front ++ wordBytes (w :: ws) ++ rest) s = some t := by
      rw [Machine.step, himage, hpc, fetch_append base w (by omega)]
      exact hexec
    have hpc' : M.pc t = base + BitVec.ofNat n (front ++ leBytes 4 w.toNat).length := by
      rw [hnext, hpc, BitVec.add_assoc, ← BitVec.ofNat_add, List.length_append, leBytes_length]
    have hvisits := ih hpc' (by simp only [List.length_append, leBytes_length]; omega)
    rw [hnext, List.append_assoc, List.append_assoc, ← List.append_assoc (leBytes 4 w.toNat),
      ← wordBytes_cons, ← List.append_assoc] at hvisits
    rw [List.length_cons, addresses_succ]
    exact .step hstep hvisits

/-! ### Blocks with data -/

/-- Code that ends with a jump, data, and code behind the data. -/
structure Block where
  setup : List (BitVec 32)
  jump : BitVec 32
  data : List Byte
  rest : List (BitVec 32)

namespace Block

variable (B : Block)

/-- The offset of the data. -/
def start : ℕ := 4 * (B.setup.length + 1)

/-- The offset of the code behind the data. -/
def target : ℕ := B.start + B.data.length

def image : List Byte := wordBytes (B.setup ++ [B.jump]) ++ B.data ++ wordBytes B.rest

/-- Some bytes at an address are in the data. -/
def InData (base a : BitVec n) (len : ℕ) : Prop :=
  B.start ≤ (a - base).toNat ∧ (a - base).toNat + len ≤ B.target

/-- The addresses of the instructions. -/
def places (base : BitVec n) : List (BitVec n) :=
  addresses base (B.setup.length + 1) ++ addresses (base + BitVec.ofNat n B.target) B.rest.length

theorem length_image : B.image.length = B.target + 4 * B.rest.length := by
  simp only [image, target, start, List.length_append, length_wordBytes, List.length_cons,
    List.length_nil]

variable {B}

theorem inData_add {k : ℕ} (hk : k < 2 ^ n) (len : ℕ) :
    B.InData base (base + BitVec.ofNat n k) len ↔ B.start ≤ k ∧ k + len ≤ B.target := by
  rw [InData, BitVec.add_comm, BitVec.add_sub_cancel, BitVec.toNat_ofNat, Nat.mod_eq_of_lt hk]

/-- **A block runs** to its end if its jump goes to the code behind the data. -/
theorem visits (hpc : M.pc s = base) (hsetup : M.Straight s B.setup s₁)
    (hjump : M.exec B.jump s₁ = some s₂) (hland : M.pc s₂ = base + BitVec.ofNat n B.target)
    (hrest : M.Straight s₂ B.rest t) (hlen : B.image.length ≤ 2 ^ n) :
    Visits (M.step base B.image) M.pc s (B.places base) t := by
  have hlen' := hlen
  rw [B.length_image, target, start] at hlen'
  have himage : B.image =
      [] ++ wordBytes B.setup ++ (leBytes 4 B.jump.toNat ++ (B.data ++ wordBytes B.rest)) := by
    simp [image]
  have hpc₀ : M.pc s = base + BitVec.ofNat n ([] : List Byte).length := by simp [hpc]
  have h₁ := hsetup.visits hpc₀ (himage ▸ hlen)
  rw [← himage, hpc] at h₁
  have hpc₁ : M.pc s₁ = base + BitVec.ofNat n (wordBytes B.setup).length := by
    rw [hsetup.pc_eq, hpc, length_wordBytes]
  have hstep : M.step base B.image s₁ = some s₂ := by
    rw [Machine.step, himage, List.nil_append, ← List.append_assoc, hpc₁,
      fetch_append base B.jump (by rw [length_wordBytes]; omega)]
    exact hjump
  have himage' : B.image = (wordBytes (B.setup ++ [B.jump]) ++ B.data) ++ wordBytes B.rest ++ [] := by
    simp [image]
  have hfront : (wordBytes (B.setup ++ [B.jump]) ++ B.data).length = B.target := by
    simp only [target, start, List.length_append, length_wordBytes, List.length_cons, List.length_nil]
  rw [← hfront] at hland
  have h₂ := hrest.visits hland (himage' ▸ hlen)
  rw [← himage', hland, hfront] at h₂
  have hplaces : B.places base = addresses base B.setup.length ++ (M.pc s₁ ::
      addresses (base + BitVec.ofNat n B.target) B.rest.length) := by
    rw [places, addresses, List.range_succ, List.map_append, List.append_assoc, hpc₁,
      length_wordBytes]
    rfl
  rw [hplaces]
  exact h₁.trans (.step hstep h₂)

variable (B) in
/-- The run of a block from a state to its end. -/
def Ends (M : Machine n σ) (base : BitVec n) (s t : σ) : Prop :=
  ∃ ps, Visits (M.step base B.image) M.pc s ps t ∧ M.pc t = base + BitVec.ofNat n B.image.length

theorem step_end (hlen : B.image.length < 2 ^ n)
    (hpc : M.pc t = base + BitVec.ofNat n B.image.length) : M.step base B.image t = none := by
  have hoff : (M.pc t - base).toNat = B.image.length := by
    rw [hpc, BitVec.add_comm, BitVec.add_sub_cancel, BitVec.toNat_ofNat, Nat.mod_eq_of_lt hlen]
  rw [Machine.step, fetch, hoff, if_neg (by omega)]
  rfl

variable (B) in
/-- The same by its instructions alone. -/
def Runs (M : Machine n σ) (base : BitVec n) (s t : σ) : Prop :=
  Visits (M.step base B.image) M.pc s (B.places base) t ∧ M.pc t = base + BitVec.ofNat n B.image.length

theorem Runs.ends (h : B.Runs M base s t) : B.Ends M base s t := ⟨_, h⟩

/-- A block has one run to its end. -/
theorem Ends.unique (hlen : B.image.length < 2 ^ n) (ht : B.Ends M base s t) (hu : B.Ends M base s u) :
    t = u := by
  obtain ⟨ps, hps, hpct⟩ := ht
  obtain ⟨qs, hqs, hpcu⟩ := hu
  exact (hps.ends_unique (step_end hlen hpct) hqs (step_end hlen hpcu)).2

end Block

/-! ### Instructions -/

section ops

variable {ι : Type}

/-- A machine that decodes its words. -/
def opMachine (pc : σ → BitVec n) (decode : BitVec 32 → Option ι) (exec : σ → ι → σ) : Machine n σ :=
  ⟨pc, fun w s => (decode w).map (exec s)⟩

variable {pc : σ → BitVec n} {decode : BitVec 32 → Option ι} {exec : σ → ι → σ}

/-- Instructions that go on behind themselves. -/
theorem straight_ops {ws : List (BitVec 32)} {ops : List ι} (hdec : ws.map decode = ops.map some)
    (hflow : ∀ i ∈ ops, ∀ s, pc (exec s i) = pc s + BitVec.ofNat n 4) (s : σ) :
    (opMachine pc decode exec).Straight s ws (ops.foldl exec s) := by
  induction ws generalizing ops s with
  | nil =>
    cases ops with
    | nil => exact .nil s
    | cons => cases hdec
  | cons w ws ih =>
    cases ops with
    | nil => cases hdec
    | cons i ops =>
      rw [List.map_cons, List.map_cons, List.cons.injEq] at hdec
      have hexec : (opMachine pc decode exec).exec w s = some (exec s i) :=
        congrArg (Option.map (exec s)) hdec.1
      refine .cons hexec (hflow i List.mem_cons_self s) ?_
      exact ih hdec.2 (fun j hj => hflow j (List.mem_cons_of_mem i hj)) (exec s i)

/-- A block runs through its instructions if its jump is as long as its data. -/
theorem Block.runs_of_ops {B : Block} {ops restOps : List ι} {j : ι}
    (hsetup : B.setup.map decode = ops.map some)
    (hflow : ∀ i ∈ ops, ∀ s, pc (exec s i) = pc s + BitVec.ofNat n 4) (hjump : decode B.jump = some j)
    (hland : ∀ s, pc (exec s j) = pc s + BitVec.ofNat n (4 + B.data.length))
    (hrest : B.rest.map decode = restOps.map some)
    (hflow' : ∀ i ∈ restOps, ∀ s, pc (exec s i) = pc s + BitVec.ofNat n 4)
    (hlen : B.image.length ≤ 2 ^ n) {s : σ} (hpc : pc s = base) :
    B.Runs (opMachine pc decode exec) base s (restOps.foldl exec (exec (ops.foldl exec s) j)) := by
  have h₁ := straight_ops hsetup hflow s
  have h₂ := straight_ops hrest hflow' (exec (ops.foldl exec s) j)
  set s₁ := ops.foldl exec s
  have hexec : (opMachine pc decode exec).exec B.jump s₁ = some (exec s₁ j) :=
    congrArg (Option.map (exec s₁)) hjump
  have hpc₁ : pc s₁ = pc s + BitVec.ofNat n (4 * B.setup.length) := h₁.pc_eq
  have hland' : (opMachine pc decode exec).pc (exec s₁ j) = base + BitVec.ofNat n B.target := by
    show pc (exec s₁ j) = _
    rw [hland, hpc₁, hpc, BitVec.add_assoc, ← BitVec.ofNat_add, Block.target, Block.start, Nat.mul_succ,
      Nat.add_assoc]
  refine ⟨Block.visits hpc h₁ hexec hland' h₂ hlen, ?_⟩
  rw [h₂.pc_eq, hland', BitVec.add_assoc, ← BitVec.ofNat_add, B.length_image]

end ops

end Risu.Lib
