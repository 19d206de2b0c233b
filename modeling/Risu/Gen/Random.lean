import Risu.Gen.Perl

/-!
# Random values of floating-point registers (`write_random_fpreg_var`)

The function is the same in `risugen_arm.pm` and `risugen_loongarch64.pm`.

* `FpDraws` — what `rand` and `irand` return in a call;
* `writeRandomFpregVar` — the words that are written.
-/

namespace Risu.Gen

inductive Precision where
  | single
  | double
  | quad

def Precision.words : Precision → ℕ
  | single => 1
  | double => 2
  | quad => 4

/-- What is drawn: the whole part of `rand(100)`, the outcome of `rand() < 0.5`, and words. -/
structure FpDraws where
  r : Fin 100
  sign : Bool
  high : BitVec 32
  low : ℕ → BitVec 32

/-- Zeros for random values. -/
def FpDraws.zero : FpDraws := ⟨0, false, 0, fun _ => 0⟩

def writeRandomFpregVar (p : Precision) (d : FpDraws) : List (BitVec 32) :=
  let signBit := if d.sign then 0x80000000#32 else 0#32
  let (randomizeLow, high) :=
    if d.r < 5 then (false, signBit)
    else if d.r < 10 then (true, d.high ||| 0x7ff00000#32)
    else if d.r < 15 then (false, 0x7ff00000#32 ||| signBit)
    else if d.r < 30 then (true, d.high &&& ~~~0x7ff00000#32)
    else (true, d.high)
  ((List.range (p.words - 1)).map fun i => if randomizeLow then d.low i else 0#32) ++ [high]

@[simp] theorem length_writeRandomFpregVar (p : Precision) (d : FpDraws) :
    (writeRandomFpregVar p d).length = p.words := by
  rw [writeRandomFpregVar, List.length_append, List.length_map, List.length_range]
  cases p <;> rfl

end Risu.Gen
