import Risu.Gen.Ppc.Branch

/-!
# Blocks run through their branch once

* `Linear`, `Block.pass` — words without jumps lead on, one after the other;
* `Block.jump` — one step of a jump forward;
* `run_targetSetup`, `displacement_eq` — the target in a register, and displacements from their fields;
* `Block.runsOnce_forward`, `Block.runsOnce_backward`, `Block.not_runsOnce` — blocks by their shape;
* `testBlock_runsOnce_iff` — when the blocks that are written run through their branch once.
-/

namespace Risu.Gen.Ppc

open Lib

/-! ### Addresses -/

namespace Block

variable {f : Form} {bd : ℤ} {b : Block f bd} {s : Cpu 64} {i j : ℕ}

theorem addr_add (b : Block f bd) (i k : ℕ) :
    b.addr i + BitVec.ofNat 64 (4 * k) = b.addr (i + k) := by
  rw [addr, addr, BitVec.add_assoc, ← BitVec.ofNat_add, ← Nat.mul_add]

theorem addr_succ (b : Block f bd) (i : ℕ) : b.addr i + 4 = b.addr (i + 1) :=
  addr_add b i 1

theorem offset_addr (hs : s.pc = b.addr i) (hi : i < 2 ^ 62) : (s.pc - b.start).toNat = 4 * i := by
  rw [hs, addr, add_ofNat_sub_toNat b.start (by omega)]

theorem index_addr (hs : s.pc = b.addr i) (hi : i < 2 ^ 62) : b.index s = i := by
  rw [index, offset_addr hs hi]
  omega

theorem step_word {o : Order} {w : Word} {insn : Insn} (hs : s.pc = b.addr i) (hi : i < 2 ^ 62)
    (hne : i ≠ b.pre.length) (hw : b.word i = some w) (hdecode : decode w = some insn) :
    b.step o s = some (exec o insn s) := by
  rw [step, offset_addr hs hi, index_addr hs hi, if_neg (by omega), if_neg hne, hw, Option.bind_some,
    hdecode]
  rfl

theorem step_branch {o : Order} (hs : s.pc = b.addr i) (hi : i < 2 ^ 62) (heq : i = b.pre.length) :
    b.step o s = some (b.branch.exec s) := by
  rw [step, offset_addr hs hi, index_addr hs hi, if_neg (by omega), if_pos heq]

/-- Behind the block there is no step. -/
theorem step_end {o : Order} (hs : s.pc = b.addr b.length) (hi : b.length < 2 ^ 62) :
    b.step o s = none := by
  have hlen : b.length = b.pre.length + 1 + b.post.length := rfl
  have hword : b.word b.length = none := by
    rw [word, if_neg (by omega)]
    exact List.getElem?_eq_none (by omega)
  rw [step, offset_addr hs hi, index_addr hs hi, if_neg (by omega), if_neg (by omega), hword]
  rfl

end Block

/-! ### Words without jumps -/

/-- A word that leads to the next one. -/
def Linear (w : Word) : Prop :=
  ∃ insn, decode w = some insn ∧ ∀ (o : Order) (s : Cpu 64), (exec o insn s).pc = s.pc + 4

theorem linear_addi (rt ra : Reg) (imm : ℤ) : ∀ w ∈ writeAddRi rt ra imm, Linear w := by
  intro w hw
  rw [writeAddRi, List.mem_singleton] at hw
  rw [hw]
  exact ⟨_, decode_addi rt ra _, fun _ _ => rfl⟩

theorem linear_subf (rt ra rb : Reg) : ∀ w ∈ writeSubfR rt ra rb, Linear w := by
  intro w hw
  rw [writeSubfR, List.mem_singleton] at hw
  rw [hw]
  exact ⟨_, decode_subf rt ra rb, fun _ _ => rfl⟩

theorem linear_movRi (rd : Reg) (imm : ℤ) : ∀ w ∈ writeMovRi rd imm, Linear w := by
  intro w hw
  rw [writeMovRi] at hw
  split_ifs at hw with hhigh hlow
  · rcases List.mem_cons.mp hw with rfl | hw
    · exact ⟨_, decode_lis rd _, fun _ _ => rfl⟩
    · rw [List.mem_singleton.mp hw]
      exact ⟨_, decode_ori rd rd _, fun _ _ => rfl⟩
  · rw [List.mem_singleton.mp hw]
    exact ⟨_, decode_lis rd _, fun _ _ => rfl⟩
  · rw [List.mem_singleton.mp hw]
    exact ⟨_, decode_li rd _, fun _ _ => rfl⟩

theorem decode_mtspr_ctr (rs : Reg) : decode (mtspr 9#64 rs) = some (.mtspr .ctr rs) :=
  @decode_mtspr _ 9#5 0#5 _ rfl rfl rfl rs

theorem decode_mtspr_lr (rs : Reg) : decode (mtspr 8#64 rs) = some (.mtspr .lr rs) :=
  @decode_mtspr _ 8#5 0#5 _ rfl rfl rfl rs

theorem decode_mfspr_ctr (rt : Reg) : decode (mfspr 9#64 rt) = some (.mfspr rt .ctr) :=
  @decode_mfspr _ 9#5 0#5 _ rfl rfl rfl rt

theorem decode_mfspr_lr (rt : Reg) : decode (mfspr 8#64 rt) = some (.mfspr rt .lr) :=
  @decode_mfspr _ 8#5 0#5 _ rfl rfl rfl rt

theorem decode_mtcrf : decode mtcrf = some (.mtcrf 255#8 5#5) := rfl

/-- `bl +4` -/
theorem decode_bl : decode (insn32 ((18#64 <<< 26) ||| 4#64 ||| 1#64)) = some (.b 1#24 true) :=
  rfl

theorem linear_mtspr (rs : Reg) : Linear (mtspr 9#64 rs) ∧ Linear (mtspr 8#64 rs) :=
  ⟨⟨_, decode_mtspr_ctr rs, fun _ _ => rfl⟩, _, decode_mtspr_lr rs, fun _ _ => rfl⟩

theorem linear_mfspr (rt : Reg) : Linear (mfspr 9#64 rt) ∧ Linear (mfspr 8#64 rt) :=
  ⟨⟨_, decode_mfspr_ctr rt, fun _ _ => rfl⟩, _, decode_mfspr_lr rt, fun _ _ => rfl⟩

theorem linear_mtcrf : Linear mtcrf := ⟨_, decode_mtcrf, fun _ _ => rfl⟩

theorem linear_bl : Linear (insn32 ((18#64 <<< 26) ||| 4#64 ||| 1#64)) :=
  ⟨_, decode_bl, fun _ _ => rfl⟩

theorem linear_fillers (count : ℤ) (r : Reg) : ∀ w ∈ fillers count r, Linear w := by
  intro w hw
  obtain ⟨l, hl, hw⟩ := List.mem_flatten.mp hw
  rw [List.eq_of_mem_replicate hl] at hw
  exact linear_addi r r 1 w hw

@[simp] theorem length_fillers (count : ℤ) (r : Reg) : (fillers count r).length = count.toNat := by
  rw [fillers, List.length_flatten, List.map_replicate, List.sum_replicate]
  exact Nat.mul_one _

/-- Fillers leave the registers for targets alone. -/
theorem run_fillers {o : Order} {count : ℤ} {r : Reg} {s t : Cpu 64}
    (h : run o (fillers count r) s = some t) : t.ctr = s.ctr ∧ t.lr = s.lr := by
  rw [fillers] at h
  generalize count.toNat = k at h
  induction k generalizing s with
  | zero =>
    cases h
    exact ⟨rfl, rfl⟩
  | succ k ih =>
    rw [List.replicate_succ, List.flatten_cons, show writeAddRi r r 1 ++
      (List.replicate k (writeAddRi r r 1)).flatten = insn32 _ :: _ from rfl,
      run_cons (decode_addi r r _)] at h
    obtain ⟨hctr, hlr⟩ := ih h
    exact ⟨hctr, hlr⟩

theorem linear_append {ws us : List Word} (hws : ∀ w ∈ ws, Linear w) (hus : ∀ w ∈ us, Linear w) :
    ∀ w ∈ ws ++ us, Linear w := by
  intro w hw
  rcases List.mem_append.mp hw with h | h
  · exact hws w h
  · exact hus w h

theorem linear_singleton {w : Word} (h : Linear w) : ∀ u ∈ [w], Linear u := by
  intro u hu
  rwa [List.mem_singleton.mp hu]

theorem linear_nil : ∀ w ∈ ([] : List Word), Linear w := fun _ h => absurd h List.not_mem_nil

theorem linear_conditionSetup (bdsize ctr cr : ℤ) :
    ∀ w ∈ conditionSetup bdsize ctr cr, Linear w := by
  refine linear_append (linear_append ?_ (linear_movRi _ _)) (linear_singleton linear_mtcrf)
  split_ifs
  · exact linear_append (linear_movRi _ _) (linear_singleton (linear_mtspr _).1)
  · exact linear_nil

theorem linear_targetSetup (bd bdsize : ℤ) : ∀ w ∈ targetSetup bd bdsize, Linear w := by
  have hfirst : ∀ w ∈ [insn32 ((18#64 <<< 26) ||| 4#64 ||| 1#64), mfspr 8#64 5#5], Linear w :=
    linear_append (linear_singleton linear_bl) (linear_singleton (linear_mfspr _).2)
  refine linear_append (linear_append hfirst ?_) (linear_singleton ?_)
  · split_ifs
    · exact linear_addi _ _ _
    · exact linear_addi _ _ _
  · split_ifs
    · exact (linear_mtspr _).1
    · exact (linear_mtspr _).2

theorem linear_branchPost (bd bdsize extra r5 : ℤ) :
    ∀ w ∈ branchPost bd bdsize extra r5, Linear w := by
  refine linear_append (linear_append (linear_fillers _ _) (linear_fillers _ _)) ?_
  split_ifs
  · exact linear_append (linear_append (linear_append (linear_singleton (linear_mfspr _).1)
      (linear_subf _ _ _)) (linear_singleton (linear_mtspr _).1)) (linear_movRi _ _)
  · exact linear_append (linear_append (linear_singleton (linear_mfspr _).2) (linear_subf _ _ _))
      (linear_movRi _ _)
  · exact linear_nil

namespace Block

variable {f : Form} {bd : ℤ} {b : Block f bd}

/-- **Words without jumps are run one after the other.** -/
theorem pass {o : Order} {ws : List Word} {i : ℕ} {s : Cpu 64} (hs : s.pc = b.addr i)
    (hi : i + ws.length < 2 ^ 62) (hws : ∀ k, k < ws.length → b.word (i + k) = ws[k]?)
    (hne : ∀ k, k < ws.length → i + k ≠ b.pre.length) (hlinear : ∀ w ∈ ws, Linear w) :
    ∃ visited t, run o ws s = some t ∧ Visits (b.step o) b.index s visited t ∧
      t.pc = b.addr (i + ws.length) ∧ b.pre.length ∉ visited := by
  induction ws generalizing i s with
  | nil => exact ⟨[], s, rfl, .refl s, hs, List.not_mem_nil⟩
  | cons w ws ih =>
    simp only [List.length_cons] at hi hws hne ⊢
    obtain ⟨insn, hdecode, hpc⟩ := hlinear w List.mem_cons_self
    have hstep := step_word (o := o) hs (by omega) (hne 0 (by omega)) (hws 0 (by omega)) hdecode
    have hnext : (exec o insn s).pc = b.addr (i + 1) := by rw [hpc, hs, addr_succ]
    obtain ⟨visited, t, hrun, hvisits, ht, hnot⟩ := ih hnext (by omega)
      (fun k hk => by
        have := hws (k + 1) (by omega)
        rwa [List.getElem?_cons_succ, show i + (k + 1) = i + 1 + k by omega] at this)
      (fun k hk => by
        have := hne (k + 1) (by omega)
        omega)
      (fun v hv => hlinear v (List.mem_cons_of_mem w hv))
    refine ⟨b.index s :: visited, t, ?_, .step hstep hvisits, ?_, ?_⟩
    · rw [run_cons hdecode]
      exact hrun
    · rw [ht]
      congr 1
      omega
    · have hindex := index_addr hs (by omega)
      have hfirst := hne 0 (by omega)
      rw [hindex, List.mem_cons]
      rintro (h | h)
      · exact hfirst h.symm
      · exact hnot h

end Block

/-! ### Jumps -/

/-- A jump forward over `k` words. -/
def jumpWord (k : ℕ) : Word := insn32 ((18#64 <<< 26) ||| BitVec.ofNat 64 (4 * k))

theorem decode_jump {k : ℕ} (hk : k < 2 ^ 23) :
    decode (jumpWord k) = some (.b (BitVec.ofNat 24 k) false) := by
  have hfield : BitVec.ofNat 64 (4 * k) = (BitVec.ofNat 24 k).setWidth 64 <<< 2 := by
    apply BitVec.eq_of_toNat_eq
    rw [BitVec.toNat_ofNat, BitVec.toNat_shiftLeft, BitVec.toNat_setWidth, BitVec.toNat_ofNat,
      Nat.shiftLeft_eq]
    omega
  have h := decode_iForm (BitVec.ofNat 24 k) 0#1
  rw [iForm, show (0#1).setWidth 64 = 0#64 from rfl, BitVec.or_zero, ← hfield] at h
  exact h

theorem exec_jump (o : Order) {k : ℕ} (hk : k < 2 ^ 23) (s : Cpu 64) :
    exec o (.b (BitVec.ofNat 24 k) false) s = { s with pc := s.pc + BitVec.ofNat 64 (4 * k) } := by
  have hdist : (BitVec.ofNat 24 k ++ 0#2).signExtend 64 = BitVec.ofNat 64 (4 * k) := by
    have hcat : BitVec.ofNat 24 k ++ 0#2 = BitVec.ofNat 26 (4 * k) := by
      apply BitVec.eq_of_toNat_eq
      rw [BitVec.toNat_append, BitVec.toNat_ofNat, BitVec.toNat_ofNat, BitVec.toNat_ofNat,
        Nat.zero_mod, Nat.or_zero, Nat.shiftLeft_eq]
      omega
    have hmsb : (BitVec.ofNat 26 (4 * k)).msb = false := by
      rw [BitVec.msb_eq_decide, BitVec.toNat_ofNat, decide_eq_false_iff_not]
      omega
    rw [hcat, BitVec.signExtend_eq_setWidth_of_msb_false hmsb]
    apply BitVec.eq_of_toNat_eq
    rw [BitVec.toNat_setWidth, BitVec.toNat_ofNat, BitVec.toNat_ofNat]
    omega
  show ({ s with pc := s.pc + (BitVec.ofNat 24 k ++ 0#2).signExtend 64, lr := s.lr } : Cpu 64) = _
  rw [hdist]

theorem shl_two {k : ℕ} (hk : k < 2 ^ 62) : shl (uv k) 2 = BitVec.ofNat 64 (4 * k) := by
  rw [show (2 : ℤ) = (2 : ℕ) from rfl, shl_natCast, uv_natCast (by omega)]
  apply BitVec.eq_of_toNat_eq
  rw [BitVec.toNat_shiftLeft, BitVec.toNat_ofNat, BitVec.toNat_ofNat, Nat.shiftLeft_eq]
  omega

namespace Block

variable {f : Form} {bd : ℤ} {b : Block f bd}

/-- **A jump forward leads to the word it names** and changes no register. -/
theorem jump {o : Order} {s : Cpu 64} {i k : ℕ} (hs : s.pc = b.addr i) (hi : i < 2 ^ 62)
    (hne : i ≠ b.pre.length) (hk : k < 2 ^ 23)
    (hw : b.word i = some (jumpWord k)) :
    ∃ t, b.step o s = some t ∧ b.index s = i ∧ t.pc = b.addr (i + k) ∧ t.ctr = s.ctr ∧
      t.lr = s.lr := by
  refine ⟨_, step_word hs hi hne hw (decode_jump hk), index_addr hs hi, ?_, ?_, ?_⟩
  · rw [exec_jump o hk, hs]
    exact addr_add b i k
  · rw [exec_jump o hk]
  · rw [exec_jump o hk]

end Block

/-! ### The target in a register -/

/-- Distance of the target from the address that `bl +4` leaves. -/
def targetOffset (bd : ℤ) : ℕ := if bd < 0 then 16 else 12 + 4 * bd.toNat

theorem signExtend_uv {k : ℕ} (hk : k < 2 ^ 15) :
    ((uv k).setWidth 16).signExtend 64 = BitVec.ofNat 64 k := by
  have hfield : (uv k).setWidth 16 = BitVec.ofNat 16 k := by
    apply BitVec.eq_of_toNat_eq
    rw [uv_natCast (by omega), BitVec.toNat_setWidth, BitVec.toNat_ofNat, BitVec.toNat_ofNat]
    omega
  rw [hfield, signExtend_ofNat (by decide) hk]

theorem targetSetup_addi {bd : ℤ} (h : bd < 4096) :
    (if bd < 0 then writeAddRi 5#5 5#5 16
      else writeAddRi 5#5 5#5 (12 + (shl (uv bd) 2).toNat)) =
      writeAddRi 5#5 5#5 (targetOffset bd : ℕ) := by
  rw [targetOffset]
  split_ifs with hneg
  · rfl
  · obtain ⟨m, rfl⟩ := Int.eq_ofNat_of_zero_le (not_lt.mp hneg)
    rw [Int.toNat_natCast, shl_two (by omega), BitVec.toNat_ofNat, Nat.mod_eq_of_lt (by omega)]
    rfl

theorem run_targetSetup (o : Order) {bd : ℤ} (h : bd < 4096) (bdsize : ℤ) (s : Cpu 64) :
    ∃ t, run o (targetSetup bd bdsize) s = some t ∧
      (if bdsize = -1 then t.ctr else t.lr) = s.pc + 4 + BitVec.ofNat 64 (targetOffset bd) := by
  have hoffset : targetOffset bd < 2 ^ 15 := by
    rw [targetOffset]
    split_ifs
    · decide
    · omega
  rw [targetSetup, targetSetup_addi h, writeAddRi]
  simp only [List.cons_append, List.nil_append]
  rw [run_cons decode_bl, run_cons (decode_mfspr_lr 5#5), run_cons (decode_addi 5#5 5#5 _)]
  by_cases hctr : bdsize = -1
  · rw [if_pos hctr, run_singleton (decode_mtspr_ctr 5#5)]
    refine ⟨_, rfl, ?_⟩
    rw [if_pos hctr, ← signExtend_uv hoffset]
    simp [exec, Cpu.setSpr, Cpu.setGpr, Cpu.getSpr, Cpu.next, Cpu.base]
  · rw [if_neg hctr, run_singleton (decode_mtspr_lr 5#5)]
    refine ⟨_, rfl, ?_⟩
    rw [if_neg hctr, ← signExtend_uv hoffset]
    simp [exec, Cpu.setSpr, Cpu.setGpr, Cpu.getSpr, Cpu.next, Cpu.base]

theorem length_targetSetup (bd bdsize : ℤ) : (targetSetup bd bdsize).length = 4 := by
  rw [targetSetup]
  split_ifs <;> rfl

/-! ### Displacements -/

theorem displacement_of_pos {k : ℕ} (hk : 0 < k) (hk' : k < 64) (v : ℤ) :
    displacement v k = (((uv v).toNat % 2 ^ k : ℕ) : ℤ) -
      (if (uv v).toNat / 2 ^ (k - 1) ≠ 0 then 2 ^ k else 0) := by
  have hpow : (2 : ℕ) ^ k < 2 ^ 64 := Nat.pow_lt_pow_right (by decide) hk'
  have hone : (1#64 <<< k).toNat = 2 ^ k := by
    rw [BitVec.toNat_shiftLeft, BitVec.toNat_ofNat, Nat.shiftLeft_eq, Nat.one_mod, Nat.one_mul,
      Nat.mod_eq_of_lt hpow]
  have hones : 1#64 <<< k - 1#64 = ones 64 k := by
    apply BitVec.eq_of_toNat_eq
    have hpos : 0 < 2 ^ k := Nat.two_pow_pos k
    rw [BitVec.toNat_sub_of_le (by rw [BitVec.le_def, hone, BitVec.toNat_ofNat]; omega), hone, ones,
      BitVec.toNat_ofNat, BitVec.toNat_ofNat, Nat.mod_eq_of_lt (by omega)]
    omega
  have hsign : shr (uv v) ((k : ℤ) - 1) ≠ 0 ↔ (uv v).toNat / 2 ^ (k - 1) ≠ 0 := by
    rw [show ((k : ℤ) - 1) = ((k - 1 : ℕ) : ℤ) by omega, shr_natCast, ne_eq, ne_eq,
      ← BitVec.toNat_inj, BitVec.toNat_ushiftRight, Nat.shiftRight_eq_div_pow]
    rfl
  rw [displacement, if_pos (by exact_mod_cast hk)]
  simp only [shl_natCast, hones, hone, and_ones, BitVec.toNat_setWidth, hsign]
  rw [Nat.mod_eq_of_lt (lt_trans (Nat.mod_lt _ (Nat.two_pow_pos k)) hpow)]
  push_cast
  rfl

/-- What `branch_pre` and `branch_post` are called with: the displacement, or the field that holds
it. -/
def Passed (f : Form) (bd v : ℤ) : Prop := v = bd ∨ 0 < f.bdsize ∧ v = bd % 2 ^ f.bdsize.toNat

theorem displacement_eq {f : Form} {bd v : ℤ} (h : -4096 < bd) (h' : bd < 4096)
    (hv : Passed f bd v) : displacement v f.bdsize = bd := by
  have hnat : ∀ {v : ℤ}, -2 ^ 63 ≤ v → v < 2 ^ 64 → (uv v).toNat = (v % 2 ^ 64).toNat := by
    intro v hlow hhigh
    rw [uv_eq_ofInt hlow hhigh, BitVec.toNat_ofInt]
    rfl
  cases f with
  | bits14 =>
    have hv' : v = bd ∨ v = bd % 2 ^ 14 := hv.imp_right And.right
    rw [show Form.bits14.bdsize = (14 : ℕ) from rfl, displacement_of_pos (by decide) (by decide),
      hnat (by omega) (by omega)]
    split_ifs <;> omega
  | bits24 =>
    have hv' : v = bd ∨ v = bd % 2 ^ 24 := hv.imp_right And.right
    rw [show Form.bits24.bdsize = (24 : ℕ) from rfl, displacement_of_pos (by decide) (by decide),
      hnat (by omega) (by omega)]
    split_ifs <;> omega
  | ctr | lr =>
    rcases hv with rfl | ⟨hpos, -⟩
    · rfl
    · exact absurd hpos (by decide)

/-! ### Parts of a block -/

namespace Block

variable {f : Form} {bd : ℤ} {b : Block f bd} {o : Order} {s : Cpu 64}

theorem word_pre {us ws vs : List Word} (h : b.pre = us ++ (ws ++ vs)) {k : ℕ} (hk : k < ws.length) :
    b.word (us.length + k) = ws[k]? := by
  have hlen : us.length + k < b.pre.length := by
    rw [h, List.length_append, List.length_append]
    omega
  rw [word, if_pos hlen, h, List.getElem?_append_right (by omega), Nat.add_sub_cancel_left,
    List.getElem?_append_left hk]

/-- A part in front of the branch, from its first word to the word behind it. -/
theorem pass_pre {us ws vs : List Word} (h : b.pre = us ++ (ws ++ vs)) (hb : b.length < 2 ^ 62)
    (hs : s.pc = b.addr us.length) (hlinear : ∀ w ∈ ws, Linear w) :
    ∃ visited t, run o ws s = some t ∧ Visits (b.step o) b.index s visited t ∧
      t.pc = b.addr (us.length + ws.length) ∧ b.pre.length ∉ visited := by
  have hlen : b.pre.length = us.length + (ws.length + vs.length) := by
    rw [h, List.length_append, List.length_append]
  have htotal : b.length = b.pre.length + 1 + b.post.length := rfl
  exact pass hs (by omega) (fun k hk => word_pre h hk) (fun k hk => by omega) hlinear

/-- What is behind the branch, from any of its words to the end. -/
theorem pass_post {j : ℕ} (hj : j ≤ b.post.length) (hb : b.length < 2 ^ 62)
    (hs : s.pc = b.addr (b.pre.length + 1 + j)) (hlinear : ∀ w ∈ b.post, Linear w) :
    ∃ visited t, Visits (b.step o) b.index s visited t ∧ t.pc = b.addr b.length ∧
      b.pre.length ∉ visited := by
  have htotal : b.length = b.pre.length + 1 + b.post.length := rfl
  have hlen : (b.post.drop j).length = b.post.length - j := List.length_drop
  obtain ⟨visited, t, -, hvisits, ht, hnot⟩ := @pass f bd b o (b.post.drop j) _ _ hs (by omega)
    (fun k hk => by
      rw [word, if_neg (by omega), List.getElem?_drop]
      congr 1
      omega)
    (fun k hk => by omega) (fun w hw => hlinear w (List.mem_of_mem_drop hw))
  refine ⟨visited, t, hvisits, ?_, hnot⟩
  rw [ht]
  congr 1
  omega

/-- Runs that visit the branch once, put together from the parts before and behind it. -/
theorem runsOnce_of {visited visited' : List ℕ} {t u v : Cpu 64}
    (hbefore : Visits (b.step o) b.index s visited t) (hnot : b.pre.length ∉ visited)
    (ht : t.pc = b.addr b.pre.length) (hb : b.length < 2 ^ 62) (hu : b.branch.exec t = u)
    (hbehind : Visits (b.step o) b.index u visited' v) (hnot' : b.pre.length ∉ visited')
    (hv : v.pc = b.addr b.length) : b.RunsOnce o s := by
  have htotal : b.length = b.pre.length + 1 + b.post.length := rfl
  have hindex := index_addr ht (by omega)
  have hbranch : Visits (b.step o) b.index t [b.pre.length] u := by
    have hstep : b.step o t = some u := hu ▸ step_branch ht (by omega) rfl
    have := @Visits.single _ _ (b.step o) b.index _ _ hstep
    rwa [hindex] at this
  refine ⟨_, v, hbefore.trans (hbranch.trans hbehind), hv, ?_⟩
  rw [List.count_append, List.count_append, List.count_eq_zero_of_not_mem hnot,
    List.count_eq_zero_of_not_mem hnot', List.count_singleton_self]

/-- Words before the branch do not change how often it is run. -/
theorem RunsOnce.before {visited : List ℕ} {t : Cpu 64} (h : b.RunsOnce o t)
    (hbefore : Visits (b.step o) b.index s visited t) (hnot : b.pre.length ∉ visited) :
    b.RunsOnce o s := by
  obtain ⟨visited', u, hvisits, hu, hcount⟩ := h
  refine ⟨_, u, hbefore.trans hvisits, hu, ?_⟩
  rw [List.count_append, List.count_eq_zero_of_not_mem hnot, hcount]

/-! ### Forward and backward -/

/-- **A block whose branch goes forward.** -/
theorem runsOnce_forward (hb : b.length < 2 ^ 62) (hs : s.pc = b.addr b.pre.length)
    (hpost : ∀ w ∈ b.post, Linear w) {j : ℕ} (hj : j ≤ b.post.length)
    (htarget : f.target bd s = b.addr (b.pre.length + 1 + j)) : b.RunsOnce o s := by
  obtain ⟨k, hk, hu⟩ : ∃ k, k ≤ b.post.length ∧
      (b.branch.exec s).pc = b.addr (b.pre.length + 1 + k) := by
    rcases b.branch.pc_exec s with hpc | hpc
    · exact ⟨0, Nat.zero_le _, by rw [hpc, hs, addr_succ]⟩
    · exact ⟨j, hj, by rw [hpc, htarget]⟩
  obtain ⟨visited, v, hbehind, hv, hnot⟩ := pass_post (o := o) hk hb hu hpost
  exact runsOnce_of (.refl s) List.not_mem_nil hs hb rfl hbehind hnot hv

section backward

variable {w : Word} {setup fillers fillers' : List Word}

/-- The run over the jump that leads over the branch, from the fillers in front of that jump. -/
theorem skip_branch
    (hpre : b.pre = setup ++ ([w] ++ (fillers ++ ([jumpWord (fillers'.length + 2)] ++ fillers'))))
    (hb : b.length < 2 ^ 20) (hs : s.pc = b.addr (setup.length + 1))
    (hlinear : ∀ u ∈ fillers, Linear u) (hpost : ∀ u ∈ b.post, Linear u) :
    ∃ visited t, Visits (b.step o) b.index s visited t ∧ t.pc = b.addr b.length ∧
      b.pre.length ∉ visited := by
  have hlen : b.pre.length = setup.length + (1 + (fillers.length + (1 + fillers'.length))) := by
    rw [hpre]
    simp only [List.length_append, List.length_singleton]
  have htotal : b.length = b.pre.length + 1 + b.post.length := rfl
  -- the fillers in front of the jump
  have hfillers : b.pre = (setup ++ [w]) ++ (fillers ++ ([jumpWord (fillers'.length + 2)] ++
      fillers')) := by rw [hpre, List.append_assoc]
  obtain ⟨visited₁, t₁, -, hvisits₁, ht₁, hnot₁⟩ := pass_pre (o := o) hfillers (by omega)
    (by rw [hs, List.length_append, List.length_singleton]) hlinear
  rw [List.length_append, List.length_singleton] at ht₁
  -- the jump
  have hjump : b.pre = ((setup ++ [w]) ++ fillers) ++ ([jumpWord (fillers'.length + 2)] ++
      fillers') := by rw [hfillers, List.append_assoc (setup ++ [w])]
  have hword := word_pre hjump (show 0 < 1 by decide)
  simp only [List.length_append, List.length_singleton, Nat.add_zero] at hword
  obtain ⟨t₂, hstep₂, hindex₂, ht₂, -, -⟩ := jump (o := o) ht₁ (by omega) (by omega)
    (show fillers'.length + 2 < 2 ^ 23 by omega) hword
  -- the words behind the branch
  have hnext : t₂.pc = b.addr (b.pre.length + 1 + 0) := by
    rw [ht₂]
    congr 1
    omega
  obtain ⟨visited₃, t₃, hvisits₃, ht₃, hnot₃⟩ :=
    pass_post (o := o) (Nat.zero_le _) (by omega) hnext hpost
  refine ⟨_, t₃, hvisits₁.trans (.step hstep₂ hvisits₃), ht₃, ?_⟩
  rw [hindex₂, List.mem_append, List.mem_cons]
  rintro (h | h | h)
  · exact hnot₁ h
  · omega
  · exact hnot₃ h

/-- **A block whose branch goes backward**, with a jump to the fillers in front of the branch. -/
theorem runsOnce_backward
    (hpre : b.pre = setup ++ ([jumpWord (fillers.length + 2)] ++ (fillers ++
      ([jumpWord (fillers'.length + 2)] ++ fillers'))))
    (hb : b.length < 2 ^ 20) (hs : s.pc = b.addr setup.length)
    (hlinear : ∀ u ∈ fillers, Linear u) (hlinear' : ∀ u ∈ fillers', Linear u)
    (hpost : ∀ u ∈ b.post, Linear u)
    (hkeep : ∀ t u : Cpu 64, run o fillers' t = some u → u.ctr = t.ctr ∧ u.lr = t.lr)
    (htarget : ∀ t : Cpu 64, t.pc = b.addr b.pre.length → t.ctr = s.ctr → t.lr = s.lr →
      f.target bd t = b.addr (setup.length + 1)) : b.RunsOnce o s := by
  have hlen : b.pre.length = setup.length + (1 + (fillers.length + (1 + fillers'.length))) := by
    rw [hpre]
    simp only [List.length_append, List.length_singleton]
  have htotal : b.length = b.pre.length + 1 + b.post.length := rfl
  -- the jump to the fillers in front of the branch
  have hword := word_pre hpre (show 0 < 1 by decide)
  simp only [Nat.add_zero] at hword
  obtain ⟨t₁, hstep₁, hindex₁, ht₁, hctr₁, hlr₁⟩ := jump (o := o) hs (by omega) (by omega)
    (show fillers.length + 2 < 2 ^ 23 by omega) hword
  -- these fillers
  have hfillers : b.pre = (setup ++ [jumpWord (fillers.length + 2)] ++ fillers ++
      [jumpWord (fillers'.length + 2)]) ++ (fillers' ++ []) := by
    rw [hpre]
    simp only [List.append_assoc, List.append_nil]
  obtain ⟨visited₂, t₂, hrun₂, hvisits₂, ht₂, hnot₂⟩ := pass_pre (o := o) hfillers (by omega)
    (by
      rw [ht₁]
      congr 1
      simp only [List.length_append, List.length_singleton]
      omega) hlinear'
  have hbranch : t₂.pc = b.addr b.pre.length := by
    rw [ht₂]
    congr 1
    simp only [List.length_append, List.length_singleton]
    omega
  have hkept := hkeep _ _ hrun₂
  have hbefore : b.pre.length ∉ b.index s :: visited₂ := by
    rw [hindex₁, List.mem_cons]
    rintro (h | h)
    · omega
    · exact hnot₂ h
  -- behind the branch, or once more over the fillers in front of it
  obtain ⟨visited₃, t₃, hvisits₃, ht₃, hnot₃⟩ : ∃ visited t,
      Visits (b.step o) b.index (b.branch.exec t₂) visited t ∧ t.pc = b.addr b.length ∧
        b.pre.length ∉ visited := by
    rcases b.branch.pc_exec t₂ with hpc | hpc
    · exact pass_post (Nat.zero_le _) (by omega) (by rw [hpc, hbranch, addr_succ]) hpost
    · refine skip_branch hpre hb ?_ hlinear hpost
      rw [hpc, htarget t₂ hbranch (hkept.1.trans hctr₁) (hkept.2.trans hlr₁)]
  exact runsOnce_of (.step hstep₁ hvisits₂) hbefore hbranch (by omega) rfl hvisits₃ hnot₃ ht₃

/-- **A block whose entry jumps to the jump over the branch never runs the branch.** -/
theorem not_runsOnce
    (hpre : b.pre = setup ++ ([jumpWord 1] ++ ([] ++ ([jumpWord (fillers'.length + 2)] ++ fillers'))))
    (hb : b.length < 2 ^ 20) {visited : List ℕ} {s₀ : Cpu 64}
    (hbefore : Visits (b.step o) b.index s₀ visited s) (hnot : b.pre.length ∉ visited)
    (hs : s.pc = b.addr setup.length) (hpost : ∀ u ∈ b.post, Linear u) : ¬ b.RunsOnce o s₀ := by
  have hlen : b.pre.length = setup.length + (1 + (0 + (1 + fillers'.length))) := by
    rw [hpre]
    simp only [List.length_append, List.length_singleton, List.length_nil]
  have htotal : b.length = b.pre.length + 1 + b.post.length := rfl
  have hword := word_pre hpre (show 0 < 1 by decide)
  simp only [Nat.add_zero] at hword
  obtain ⟨t₁, hstep₁, hindex₁, ht₁, -, -⟩ := jump (o := o) hs (by omega) (by omega)
    (show 1 < 2 ^ 23 by decide) hword
  obtain ⟨visited₂, t₂, hvisits₂, ht₂, hnot₂⟩ := skip_branch (o := o) hpre hb ht₁ linear_nil hpost
  rintro ⟨visited', t', hvisits', ht', hcount⟩
  obtain ⟨rfl, -⟩ := (hbefore.trans (.step hstep₁ hvisits₂)).ends_unique (step_end ht₂ (by omega))
    hvisits' (step_end ht' (by omega))
  have hzero : (visited ++ b.index s :: visited₂).count b.pre.length = 0 := by
    apply List.count_eq_zero_of_not_mem
    rw [hindex₁, List.mem_append, List.mem_cons]
    rintro (h | h | h)
    · exact hnot h
    · omega
    · exact hnot₂ h
  omega

end backward

end Block

/-! ### The blocks that are written -/

section blocks

variable {f : Form} {bd : ℤ}

/-- The words in front of the jump to the branch under test. -/
def setupOf (f : Form) (d : Draws bd) : List Word :=
  if f.bdsize < 24 then branchSetup bd f.bdsize (d.ctr : ℕ) (d.cr : ℕ) else []

theorem length_movRi_le (rd : Reg) (imm : ℤ) : (writeMovRi rd imm).length ≤ 2 := by
  rw [writeMovRi]
  split_ifs <;> simp

theorem branchEntry_eq (h : -4096 < bd) (hneg : bd < 0) {k : ℕ} (hk : k ≤ (-bd).toNat) :
    branchEntry bd k = [jumpWord ((-bd).toNat - k + 1)] ++ (fillers (-(bd + 1 + k)) 3#5 ++
      ([jumpWord ((fillers k 6#5).length + 2)] ++ fillers k 6#5)) := by
  have hfirst : shl (uv (1 - bd - k)) 2 = BitVec.ofNat 64 (4 * ((-bd).toNat - k + 1)) := by
    rw [show (1 - bd - k : ℤ) = (((-bd).toNat - k + 1 : ℕ) : ℤ) by omega, shl_two (by omega)]
  have hskip : uv (8 + (shl (uv k) 2).toNat) = BitVec.ofNat 64 (4 * (k + 2)) := by
    rw [shl_two (by omega), BitVec.toNat_ofNat, Nat.mod_eq_of_lt (by omega),
      show (8 + ((4 * k : ℕ) : ℤ)) = ((4 * (k + 2) : ℕ) : ℤ) by omega, uv_natCast (by omega)]
  rw [branchEntry, if_pos hneg, hfirst, hskip, length_fillers, Int.toNat_natCast, jumpWord, jumpWord]
  simp only [List.append_assoc]

namespace Block

theorem addr_add_ofInt {b : Block f bd} {i j : ℕ} (h : (j : ℤ) = i + bd) :
    b.addr i + BitVec.ofInt 64 (4 * bd) = b.addr j := by
  have hcast : ((4 * j : ℕ) : ℤ) = ((4 * i : ℕ) : ℤ) + 4 * bd := by omega
  rw [addr, addr, BitVec.add_assoc, ← BitVec.ofInt_natCast 64 (4 * j), hcast, BitVec.ofInt_add,
    BitVec.ofInt_natCast]

theorem target_offset (b : Block f bd) (i : ℕ) :
    b.addr i + 4 + BitVec.ofNat 64 (targetOffset bd) =
      b.addr (i + 4 + if bd < 0 then 1 else bd.toNat) := by
  have hoffset : targetOffset bd = 4 * (3 + if bd < 0 then 1 else bd.toNat) := by
    rw [targetOffset]
    split_ifs <;> omega
  rw [addr_succ, hoffset, addr_add]
  congr 1
  omega

/-- The setup of the forms with the target in a register. -/
theorem run_setup_register {b : Block f bd} {d : Draws bd} {rest : List Word} {o : Order}
    {s : Cpu 64} (hf : f.bdsize < 0) (hpre : b.pre = setupOf f d ++ rest) (h : bd < 4096)
    (hb : b.length < 2 ^ 62) (hs : s.pc = b.addr 0) :
    ∃ visited t, Visits (b.step o) b.index s visited t ∧ t.pc = b.addr (setupOf f d).length ∧
      b.pre.length ∉ visited ∧ (if f.bdsize = -1 then t.ctr else t.lr) =
        b.addr ((setupOf f d).length + if bd < 0 then 1 else bd.toNat) := by
  set cond := conditionSetup f.bdsize (d.ctr : ℕ) (d.cr : ℕ) with hcond
  have hsetup : setupOf f d = cond ++ targetSetup bd f.bdsize := by
    rw [setupOf, if_pos (by omega), branchSetup, if_pos hf]
  rw [hsetup] at hpre ⊢
  obtain ⟨visited₁, t₁, -, hvisits₁, ht₁, hnot₁⟩ := @pass_pre f bd b o s [] cond
    (targetSetup bd f.bdsize ++ rest) (by rw [hpre, List.nil_append, List.append_assoc]) hb hs
    (linear_conditionSetup _ _ _)
  rw [List.length_nil, Nat.zero_add] at ht₁
  obtain ⟨visited₂, t₂, hrun₂, hvisits₂, ht₂, hnot₂⟩ := @pass_pre f bd b o t₁ cond
    (targetSetup bd f.bdsize) rest (by rw [hpre, List.append_assoc]) hb ht₁
    (linear_targetSetup _ _)
  obtain ⟨t, hrun, htarget⟩ := run_targetSetup o h f.bdsize t₁
  obtain rfl : t₂ = t := Option.some.inj (hrun₂.symm.trans hrun)
  refine ⟨_, t₂, hvisits₁.trans hvisits₂, by rw [ht₂, List.length_append], ?_, ?_⟩
  · rw [List.mem_append]
    rintro (hmem | hmem)
    · exact hnot₁ hmem
    · exact hnot₂ hmem
  · rw [htarget, ht₁, target_offset, List.length_append, length_targetSetup]

/-- **The setup leaves the target in its register**, and leads to the word behind it. -/
theorem run_setup {b : Block f bd} {d : Draws bd} {rest : List Word} {o : Order} {s : Cpu 64} {j : ℕ}
    (hpre : b.pre = setupOf f d ++ rest) (h : bd < 4096) (hb : b.length < 2 ^ 62)
    (hs : s.pc = b.start) (hj : (j : ℤ) = b.pre.length + bd)
    (hj' : j = (setupOf f d).length + if bd < 0 then 1 else bd.toNat) :
    ∃ visited t, Visits (b.step o) b.index s visited t ∧ t.pc = b.addr (setupOf f d).length ∧
      b.pre.length ∉ visited ∧ ∀ u : Cpu 64, u.pc = b.addr b.pre.length → u.ctr = t.ctr →
        u.lr = t.lr → f.target bd u = b.addr j := by
  have hs₀ : s.pc = b.addr 0 := by rw [hs, addr]; simp
  cases f with
  | bits24 =>
    refine ⟨[], s, .refl s, hs₀, List.not_mem_nil, fun u hu _ _ => ?_⟩
    show u.pc + BitVec.ofInt 64 (4 * bd) = _
    rw [hu, addr_add_ofInt hj]
  | bits14 =>
    have hsetup : setupOf .bits14 d = conditionSetup 14 (d.ctr : ℕ) (d.cr : ℕ) := by
      rw [setupOf, if_pos (by decide), branchSetup, if_neg (by decide), List.append_nil]
      rfl
    rw [hsetup] at hpre ⊢
    obtain ⟨visited, t, -, hvisits, ht, hnot⟩ := @pass_pre .bits14 bd b o s []
      (conditionSetup 14 (d.ctr : ℕ) (d.cr : ℕ)) rest (by rw [hpre, List.nil_append]) hb hs₀
      (linear_conditionSetup _ _ _)
    rw [List.length_nil, Nat.zero_add] at ht
    refine ⟨visited, t, hvisits, ht, hnot, fun u hu _ _ => ?_⟩
    show u.pc + BitVec.ofInt 64 (4 * bd) = _
    rw [hu, addr_add_ofInt hj]
  | ctr =>
    obtain ⟨visited, t, hvisits, ht, hnot, htarget⟩ :=
      run_setup_register (o := o) (by decide) hpre h hb hs₀
    rw [if_pos (show Form.ctr.bdsize = -1 from rfl), ← hj'] at htarget
    exact ⟨visited, t, hvisits, ht, hnot, fun u _ hctr _ => hctr.trans htarget⟩
  | lr =>
    obtain ⟨visited, t, hvisits, ht, hnot, htarget⟩ :=
      run_setup_register (o := o) (by decide) hpre h hb hs₀
    rw [if_neg (show Form.lr.bdsize ≠ -1 by decide), ← hj'] at htarget
    exact ⟨visited, t, hvisits, ht, hnot, fun u _ _ hlr => hlr.trans htarget⟩

theorem pre_testBlock {start : BitVec 64} {v v' : ℤ} {d : Draws bd} {branch : Branch f bd}
    (h : -4096 < bd) (h' : bd < 4096) (hv : Passed f bd v) :
    (testBlock start v v' d branch).pre = setupOf f d ++ branchEntry bd (d.filler2 : ℕ) := by
  show branchPre v f.bdsize _ _ _ = _
  rw [branchPre, displacement_eq h h' hv]
  rfl

theorem length_post_testBlock {start : BitVec 64} {v v' : ℤ} {d : Draws bd} {branch : Branch f bd}
    (h : -4096 < bd) (h' : bd < 4096) (hv' : Passed f bd v') :
    bd.toNat - 1 ≤ (testBlock start v v' d branch).post.length ∧
      (testBlock start v v' d branch).post.length < 2 ^ 13 := by
  have hextra := d.extra.isLt
  have hmov := length_movRi_le 5#5 (d.r5 : ℕ)
  show bd.toNat - 1 ≤ (branchPost v' f.bdsize _ _).length ∧ (branchPost v' f.bdsize _ _).length < 2 ^ 13
  rw [branchPost, displacement_eq h h' hv']
  simp only [List.length_append, length_fillers, Int.toNat_natCast]
  split_ifs <;> simp only [List.length_append, List.length_singleton, List.length_nil, writeSubfR] <;>
    omega

theorem linear_setupOf (f : Form) (d : Draws bd) : ∀ w ∈ setupOf f d, Linear w := by
  rw [setupOf]
  split_ifs
  · refine linear_append (linear_conditionSetup _ _ _) ?_
    split_ifs
    · exact linear_targetSetup _ _
    · exact linear_nil
  · exact linear_nil

theorem length_setupOf_le (f : Form) (d : Draws bd) : (setupOf f d).length ≤ 10 := by
  have hctr := length_movRi_le 5#5 ((d.ctr : ℕ) - 1)
  have hcr := length_movRi_le 5#5 (d.cr : ℕ)
  rw [setupOf]
  split_ifs
  · rw [branchSetup, conditionSetup]
    split_ifs <;> simp only [List.length_append, List.length_singleton, List.length_nil,
      length_targetSetup] <;> omega
  · exact Nat.zero_le _

section testBlock

variable {v v' : ℤ} {d : Draws bd} {start : BitVec 64} {branch : Branch f bd}

theorem length_testBlock (h : -4096 < bd) (h' : bd < 4096) (hv : Passed f bd v)
    (hv' : Passed f bd v') : (testBlock start v v' d branch).length < 2 ^ 20 := by
  have hsetup := length_setupOf_le f d
  have hpost := (@length_post_testBlock f bd start v v' d branch h h' hv').2
  have hdraw : (d.filler2 : ℕ) ≤ (-bd).toNat := Nat.lt_succ_iff.mp d.filler2.isLt
  rw [Block.length, pre_testBlock h h' hv, List.length_append]
  rcases lt_or_ge bd 0 with hneg | hpos
  · rw [branchEntry_eq h hneg hdraw]
    simp only [List.length_append, List.length_singleton, length_fillers, Int.toNat_natCast]
    omega
  · rw [branchEntry, if_neg (not_lt.mpr hpos), List.length_nil]
    omega

theorem testBlock_forward (hpos : 0 < bd) (h' : bd < 4096) (hv : Passed f bd v)
    (hv' : Passed f bd v') {o : Order} {s : Cpu 64} (hs : s.pc = start) :
    (testBlock start v v' d branch).RunsOnce o s := by
  have h : -4096 < bd := by omega
  have hlen := @length_testBlock f bd v v' d start branch h h' hv hv'
  have hpostlen := (@length_post_testBlock f bd start v v' d branch h h' hv').1
  set b := testBlock start v v' d branch with hb
  have hpre : b.pre = setupOf f d ++ branchEntry bd (d.filler2 : ℕ) := pre_testBlock h h' hv
  have hpost : ∀ w ∈ b.post, Linear w := linear_branchPost _ _ _ _
  have htotal : b.length = b.pre.length + 1 + b.post.length := rfl
  rw [branchEntry, if_neg (not_lt.mpr hpos.le)] at hpre
  have hprelen : b.pre.length = (setupOf f d).length := by rw [hpre, List.append_nil]
  obtain ⟨visited, t, hvisits, ht, hnot, htarget⟩ := @run_setup f bd b d _ o s
    (b.pre.length + bd.toNat) hpre h' (by omega) hs (by omega)
    (by rw [if_neg (not_lt.mpr hpos.le), hprelen])
  rw [← hprelen] at ht
  refine RunsOnce.before (runsOnce_forward (by omega) ht hpost hpostlen ?_) hvisits hnot
  rw [htarget t ht rfl rfl]
  congr 1
  omega

theorem testBlock_backward (hneg : bd < 0) (h : -4096 < bd) (hv : Passed f bd v)
    (hv' : Passed f bd v') (hroom : (d.filler2 : ℕ) ≠ (-bd).toNat) {o : Order} {s : Cpu 64}
    (hs : s.pc = start) : (testBlock start v v' d branch).RunsOnce o s := by
  have h' : bd < 4096 := by omega
  have hdraw : (d.filler2 : ℕ) ≤ (-bd).toNat := Nat.lt_succ_iff.mp d.filler2.isLt
  have hlen := @length_testBlock f bd v v' d start branch h h' hv hv'
  set b := testBlock start v v' d branch with hb
  have hpre : b.pre = setupOf f d ++ branchEntry bd (d.filler2 : ℕ) := pre_testBlock h h' hv
  have hpost : ∀ w ∈ b.post, Linear w := linear_branchPost _ _ _ _
  rw [branchEntry_eq h hneg hdraw] at hpre
  have hprelen : b.pre.length = (setupOf f d).length + (1 + ((-(bd + 1 + (d.filler2 : ℕ))).toNat +
      (1 + (d.filler2 : ℕ)))) := by
    rw [hpre]
    simp only [List.length_append, List.length_singleton, length_fillers, Int.toNat_natCast]
  obtain ⟨visited, t, hvisits, ht, hnot, htarget⟩ := @run_setup f bd b d _ o s
    ((setupOf f d).length + 1) hpre h' (by omega) hs (by omega) (by rw [if_pos hneg])
  have hfirst : (-bd).toNat - (d.filler2 : ℕ) + 1 =
      (fillers (-(bd + 1 + (d.filler2 : ℕ))) 3#5).length + 2 := by
    rw [length_fillers]
    omega
  rw [hfirst] at hpre
  exact (runsOnce_backward hpre hlen ht (linear_fillers _ _) (linear_fillers _ _) hpost
    (fun _ _ => run_fillers) htarget).before hvisits hnot

/-- If all words of the way back are fillers in front of the branch, the branch is never run. -/
theorem testBlock_skipped (hneg : bd < 0) (h : -4096 < bd) (hv : Passed f bd v)
    (hv' : Passed f bd v') (hroom : (d.filler2 : ℕ) = (-bd).toNat) {o : Order} {s : Cpu 64}
    (hs : s.pc = start) : ¬ (testBlock start v v' d branch).RunsOnce o s := by
  have h' : bd < 4096 := by omega
  have hlen := @length_testBlock f bd v v' d start branch h h' hv hv'
  set b := testBlock start v v' d branch with hb
  have hpre : b.pre = setupOf f d ++ branchEntry bd (d.filler2 : ℕ) := pre_testBlock h h' hv
  have hpost : ∀ w ∈ b.post, Linear w := linear_branchPost _ _ _ _
  rw [branchEntry_eq h hneg hroom.le] at hpre
  have hnone : fillers (-(bd + 1 + (d.filler2 : ℕ))) 3#5 = [] := by
    rw [fillers, Int.toNat_eq_zero.mpr (by omega), List.replicate_zero, List.flatten_nil]
  have hfirst : (-bd).toNat - (d.filler2 : ℕ) + 1 = 1 := by omega
  have hs₀ : s.pc = b.addr 0 := by
    rw [hs, addr]
    exact (BitVec.add_zero _).symm
  obtain ⟨visited, t, -, hvisits, ht, hnot⟩ := @pass_pre f bd b o s [] (setupOf f d) _ hpre
    (by omega) hs₀ (linear_setupOf f d)
  rw [List.length_nil, Nat.zero_add] at ht
  rw [hnone, hfirst] at hpre
  exact not_runsOnce hpre hlen hvisits hnot ht hpost

end testBlock

end Block

/-- **A block runs through its branch once exactly if** the branch goes forward or fewer words than its
displacement were drawn to stand between the jump over it and the branch: for all forms and
displacements, whatever the branch does to the registers, and wherever the block is. -/
theorem testBlock_runsOnce_iff (hne : bd ≠ 0) (h : -4096 < bd) (h' : bd < 4096) {v v' : ℤ}
    (hv : Passed f bd v) (hv' : Passed f bd v') (d : Draws bd) (start : BitVec 64)
    (branch : Branch f bd) (o : Order) (s : Cpu 64) (hs : s.pc = start) :
    (testBlock start v v' d branch).RunsOnce o s ↔ 0 < bd ∨ (d.filler2 : ℕ) ≠ (-bd).toNat := by
  rcases lt_or_gt_of_ne hne with hneg | hpos
  · by_cases hroom : (d.filler2 : ℕ) = (-bd).toNat
    · exact iff_of_false (Block.testBlock_skipped hneg h hv hv' hroom hs) (by omega)
    · exact iff_of_true (Block.testBlock_backward hneg h hv hv' hroom hs) (.inr hroom)
  · exact iff_of_true (Block.testBlock_forward hpos h' hv hv' hs) (.inl hpos)

end blocks

/-- A branch that is taken. -/
def taken (f : Form) (bd : ℤ) : Branch f bd where
  exec s := { s with pc := f.target bd s }
  pc_exec _ := .inr rfl

theorem testBlock_runsOnce_lr :
    (testBlock 0 (-3) (-3) ⟨0, 0, 1, 2, 5⟩ (taken .lr (-3))).RunsOnce .little (Cpu.zero 64) :=
  (testBlock_runsOnce_iff (by decide) (by decide) (by decide) (.inl rfl) (.inl rfl) _ 0
    (taken .lr (-3)) .little (Cpu.zero 64) rfl).2 (.inr (by decide))

/-- `branch_pre(-1, 14)` with 1 drawn from 0 and 1: the branch is never run. -/
theorem testBlock_skips_branch :
    ¬ (testBlock 0 (-1) 0x3fff ⟨0, 0, 1, 0, 0⟩ (taken .bits14 (-1))).RunsOnce .big (Cpu.zero 64) :=
  Block.testBlock_skipped (by decide) (by decide) (.inl rfl) (.inr ⟨by decide, by decide⟩)
    (by decide) rfl

end Risu.Gen.Ppc
