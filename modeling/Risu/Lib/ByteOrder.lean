import Mathlib.Data.List.SplitLengths
import Mathlib.Tactic.Ring
import Mathlib.Tactic.NormNum

/-!
# Fixed-width integers as bytes in either byte order

An `n`-byte integer is a natural number below `256 ^ n`; its object representation is a list of
`n` bytes, least significant first on a little-endian host and most significant first on a
big-endian one.

* `bytesOf o n v` / `valueOf o bs` — the two directions, with `valueOf_bytesOf`;
* `swapBytes n v` — the byte reversal of an `n`-byte integer; writing the swapped value in one
  order is writing the value in the other (`bytesOf_swapBytes`), and swapping is an involution;
* `testBit_leValue`, `getLsbD_swapVec` — the bits of a value and of its byte reversal;
* `splitLengths_flatten` — a record laid out field by field is cut back into its fields.
-/

namespace Risu.Lib

/-- One byte of memory. -/
abbrev Byte := BitVec 8

/-- The byte order of a host. -/
inductive Order where
  | little
  | big
  deriving DecidableEq, Repr

/-- The opposite byte order. -/
def Order.flip : Order → Order
  | .little => .big
  | .big => .little

/-! ### Least significant byte first -/

def leBytes : ℕ → ℕ → List Byte
  | 0, _ => []
  | n + 1, v => BitVec.ofNat 8 v :: leBytes n (v / 256)

def leValue : List Byte → ℕ
  | [] => 0
  | b :: bs => b.toNat + 256 * leValue bs

@[simp] theorem leBytes_length (n v : ℕ) : (leBytes n v).length = n := by
  induction n generalizing v with
  | zero => rfl
  | succ n ih => simp only [leBytes, List.length_cons, ih]

theorem leValue_leBytes (n v : ℕ) : leValue (leBytes n v) = v % 256 ^ n := by
  induction n generalizing v with
  | zero => simp [leBytes, leValue, Nat.mod_one]
  | succ n ih =>
    simp only [leBytes, leValue, ih, BitVec.toNat_ofNat]
    rw [show (2 : ℕ) ^ 8 = 256 from rfl, pow_succ', Nat.mod_mul]

theorem leValue_lt (bs : List Byte) : leValue bs < 256 ^ bs.length := by
  induction bs with
  | nil => simp [leValue]
  | cons b bs ih =>
    have hb : b.toNat < 256 := b.isLt
    simp only [leValue, List.length_cons, pow_succ]
    omega

theorem leBytes_leValue (bs : List Byte) : leBytes bs.length (leValue bs) = bs := by
  induction bs with
  | nil => rfl
  | cons b bs ih =>
    have hb : b.toNat < 256 := b.isLt
    have hdiv : (b.toNat + 256 * leValue bs) / 256 = leValue bs := by omega
    have hmod : BitVec.ofNat 8 (b.toNat + 256 * leValue bs) = b := by
      apply BitVec.eq_of_toNat_eq
      rw [BitVec.toNat_ofNat]
      omega
    simp only [List.length_cons, leBytes, leValue, hdiv, hmod, ih]

/-- Only the bytes that are written count. -/
theorem leBytes_mod (n v : ℕ) : leBytes n (v % 256 ^ n) = leBytes n v := by
  have h := leBytes_leValue (leBytes n v)
  rwa [leBytes_length, leValue_leBytes] at h

theorem leBytes_add (k l v : ℕ) : leBytes (k + l) v = leBytes k v ++ leBytes l (v / 256 ^ k) := by
  induction k generalizing v with
  | zero => simp [leBytes]
  | succ k ih =>
    have hdiv : v / 256 / 256 ^ k = v / 256 ^ (k + 1) := by rw [Nat.div_div_eq_div_mul, pow_succ']
    rw [Nat.add_right_comm, leBytes, leBytes, ih, hdiv, List.cons_append]

/-! ### Either order -/

/-- The object representation of an `n`-byte integer. -/
def bytesOf : Order → ℕ → ℕ → List Byte
  | .little, n, v => leBytes n v
  | .big, n, v => (leBytes n v).reverse

/-- The integer whose object representation is `bs`. -/
def valueOf : Order → List Byte → ℕ
  | .little, bs => leValue bs
  | .big, bs => leValue bs.reverse

@[simp] theorem bytesOf_length (o : Order) (n v : ℕ) : (bytesOf o n v).length = n := by
  cases o <;> simp [bytesOf]

theorem valueOf_bytesOf (o : Order) (n v : ℕ) : valueOf o (bytesOf o n v) = v % 256 ^ n := by
  cases o <;> simp [bytesOf, valueOf, leValue_leBytes]

theorem valueOf_bytesOf_of_lt (o : Order) {n v : ℕ} (h : v < 256 ^ n) :
    valueOf o (bytesOf o n v) = v := by
  rw [valueOf_bytesOf, Nat.mod_eq_of_lt h]

/-- The most significant bytes come first on a big-endian host. -/
theorem bytesOf_big_add (k l v : ℕ) :
    bytesOf .big (k + l) v = bytesOf .big k (v / 256 ^ l) ++ bytesOf .big l (v % 256 ^ l) := by
  rw [bytesOf, bytesOf, bytesOf, leBytes_mod, Nat.add_comm k l, leBytes_add, List.reverse_append]

/-- A bit vector of `8 * n` bits survives the trip through its object representation. -/
@[simp] theorem ofNat_valueOf_bytesOf (o : Order) (n : ℕ) (v : BitVec (8 * n)) :
    BitVec.ofNat (8 * n) (valueOf o (bytesOf o n v.toNat)) = v := by
  have hv : v.toNat < 256 ^ n := by
    rw [show (256 : ℕ) = 2 ^ 8 from rfl, ← pow_mul]
    exact v.isLt
  rw [valueOf_bytesOf_of_lt o hv, BitVec.ofNat_toNat, BitVec.setWidth_eq]

theorem bytesOf_valueOf (o : Order) (bs : List Byte) : bytesOf o bs.length (valueOf o bs) = bs := by
  cases o with
  | little => exact leBytes_leValue bs
  | big =>
    have hbytes := leBytes_leValue bs.reverse
    rw [List.length_reverse] at hbytes
    rw [bytesOf, valueOf, hbytes, List.reverse_reverse]

theorem valueOf_lt (o : Order) (bs : List Byte) : valueOf o bs < 256 ^ bs.length := by
  cases o with
  | little => exact leValue_lt bs
  | big =>
    have hlt := leValue_lt bs.reverse
    rwa [List.length_reverse] at hlt

/-- Bytes are those of a bit vector if and only if they are read as it. -/
theorem eq_bytesOf_iff (o : Order) {n : ℕ} {bs : List Byte} (h : bs.length = n) (v : BitVec (8 * n)) :
    bs = bytesOf o n v.toNat ↔ BitVec.ofNat (8 * n) (valueOf o bs) = v := by
  constructor
  · rintro rfl
    exact ofNat_valueOf_bytesOf o n v
  · rintro rfl
    have hlt := valueOf_lt o bs
    rw [h, show (256 : ℕ) = 2 ^ 8 from rfl, ← pow_mul] at hlt
    rw [BitVec.toNat_ofNat, Nat.mod_eq_of_lt hlt, ← h, bytesOf_valueOf]

/-! ### Byte reversal -/

/-- The `n`-byte integer with its bytes in reverse order. -/
def swapBytes (n v : ℕ) : ℕ := leValue (leBytes n v).reverse

theorem swapBytes_lt (n v : ℕ) : swapBytes n v < 256 ^ n := by
  simpa [swapBytes] using leValue_lt (leBytes n v).reverse

theorem leBytes_swapBytes (n v : ℕ) : leBytes n (swapBytes n v) = (leBytes n v).reverse := by
  have h := leBytes_leValue (leBytes n v).reverse
  simpa [swapBytes] using h

/-- Writing the swapped value in one order is writing the value in the other. -/
theorem bytesOf_swapBytes (o : Order) (n v : ℕ) :
    bytesOf o n (swapBytes n v) = bytesOf o.flip n v := by
  cases o <;> simp [bytesOf, Order.flip, leBytes_swapBytes]

theorem swapBytes_swapBytes (n v : ℕ) : swapBytes n (swapBytes n v) = v % 256 ^ n := by
  rw [swapBytes, leBytes_swapBytes, List.reverse_reverse, leValue_leBytes]

/-- The byte reversal of a bit vector of `8 * n` bits. -/
def swapVec (n : ℕ) (v : BitVec (8 * n)) : BitVec (8 * n) :=
  BitVec.ofNat (8 * n) (swapBytes n v.toNat)

theorem swapVec_toNat (n : ℕ) (v : BitVec (8 * n)) : (swapVec n v).toNat = swapBytes n v.toNat := by
  have h := swapBytes_lt n v.toNat
  rw [show (256 : ℕ) = 2 ^ 8 from rfl, ← pow_mul] at h
  rw [swapVec, BitVec.toNat_ofNat, Nat.mod_eq_of_lt h]

theorem bytesOf_swapVec (o : Order) (n : ℕ) (v : BitVec (8 * n)) :
    bytesOf o n (swapVec n v).toNat = bytesOf o.flip n v.toNat := by
  rw [swapVec_toNat, bytesOf_swapBytes]

@[simp] theorem swapVec_swapVec (n : ℕ) (v : BitVec (8 * n)) : swapVec n (swapVec n v) = v := by
  apply BitVec.eq_of_toNat_eq
  have hv : v.toNat < 256 ^ n := by
    rw [show (256 : ℕ) = 2 ^ 8 from rfl, ← pow_mul]
    exact v.isLt
  rw [swapVec_toNat, swapVec_toNat, swapBytes_swapBytes, Nat.mod_eq_of_lt hv]

/-! ### Bits -/

theorem testBit_leValue (bs : List Byte) (i : ℕ) :
    (leValue bs).testBit i = (bs[i / 8]?.getD 0).getLsbD (i % 8) := by
  induction bs generalizing i with
  | nil =>
    show (0 : ℕ).testBit i = (0 : Byte).getLsbD (i % 8)
    rw [Nat.zero_testBit]
    exact BitVec.getLsbD_zero.symm
  | cons b bs ih =>
    have hsum : leValue (b :: bs) = 2 ^ 8 * leValue bs + b.toNat := Nat.add_comm _ _
    rw [hsum, Nat.testBit_two_pow_mul_add _ b.isLt]
    split_ifs with hi
    · rw [Nat.div_eq_of_lt hi, Nat.mod_eq_of_lt hi]
      rfl
    · obtain ⟨j, rfl⟩ := Nat.exists_eq_add_of_le (Nat.not_lt.mp hi)
      rw [Nat.add_sub_cancel_left, ih, Nat.add_div_left j (by decide), Nat.add_mod_left]
      rfl

theorem getElem?_leBytes {n k : ℕ} (v : ℕ) (hk : k < n) :
    (leBytes n v)[k]? = some (BitVec.ofNat 8 (v / 256 ^ k)) := by
  induction n generalizing v k with
  | zero => exact absurd hk (Nat.not_lt_zero k)
  | succ n ih =>
    cases k with
    | zero => rw [pow_zero, Nat.div_one]; rfl
    | succ k =>
      rw [leBytes, List.getElem?_cons_succ, ih _ (Nat.lt_of_succ_lt_succ hk), Nat.div_div_eq_div_mul,
        pow_succ']

/-- The bits of a byte stay in order. -/
theorem getLsbD_swapVec {n : ℕ} (v : BitVec (8 * n)) {i : ℕ} (hi : i < 8 * n) :
    (swapVec n v).getLsbD i = v.getLsbD (8 * (n - 1 - i / 8) + i % 8) := by
  have hk : i / 8 < (leBytes n v.toNat).length := by
    rw [leBytes_length]
    omega
  have hpow : 256 ^ (n - 1 - i / 8) = 2 ^ (8 * (n - 1 - i / 8)) := by
    rw [pow_mul]
    norm_num
  rw [BitVec.getLsbD, swapVec_toNat, swapBytes, testBit_leValue, List.getElem?_reverse hk, leBytes_length,
    getElem?_leBytes _ (by omega), Option.getD_some, BitVec.getLsbD_ofNat, hpow, Nat.testBit_div_two_pow,
    decide_eq_true (Nat.mod_lt i (by decide)), Bool.true_and, Nat.add_comm]
  rfl

/-! ### Records -/

/-- A record laid out field by field is cut back into its fields. -/
theorem splitLengths_flatten {α : Type*} (fields : List (List α)) (rest : List α) :
    (fields.map List.length).splitLengths (fields.flatten ++ rest) = fields := by
  induction fields with
  | nil => rfl
  | cons f fs ih =>
    simp only [List.map_cons, List.flatten_cons, List.append_assoc, List.splitLengths_cons,
      List.take_left, List.drop_left, ih]

end Risu.Lib
