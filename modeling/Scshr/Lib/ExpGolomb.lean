import Mathlib.Data.Nat.Bitwise

/-! The bits of numbers: those of fixed width, the first bit first, and the Exp-Golomb codes. -/
namespace Scshr.Lib.ExpGolomb

open List

def fixed : Nat → Nat → List Bool
  | 0, _ => []
  | width + 1, value => value.testBit width :: fixed width value

def valueOf : List Bool → Nat
  | [] => 0
  | bit :: bits => bit.toNat * 2 ^ bits.length + valueOf bits

theorem length_fixed (width value : Nat) : (fixed width value).length = width := by
  induction width with
  | zero => rfl
  | succ width ih => rw [fixed, length_cons, ih]

theorem valueOf_fixed (width value : Nat) : valueOf (fixed width value) = value % 2 ^ width := by
  induction width with
  | zero => rw [fixed, valueOf, pow_zero, Nat.mod_one]
  | succ width ih =>
    rw [fixed, valueOf, ih, length_fixed, Nat.toNat_testBit, Nat.mod_pow_succ, Nat.add_comm,
      Nat.mul_comm]

def golombZeros (value : Nat) : Nat := Nat.log2 (value + 1)

/-- The Exp-Golomb code: as many zeros as bits follow the leading one of the successor. -/
def golomb (value : Nat) : List Bool :=
  List.replicate (golombZeros value) false ++ true :: fixed (golombZeros value) (value + 1)

theorem length_golomb (value : Nat) : (golomb value).length = 2 * golombZeros value + 1 := by
  rw [golomb, length_append, length_replicate, length_cons, length_fixed]
  omega

theorem valueOf_golomb (value : Nat) :
    2 ^ golombZeros value + valueOf (fixed (golombZeros value) (value + 1)) = value + 1 := by
  have low : 2 ^ golombZeros value ≤ value + 1 := Nat.log2_self_le (Nat.succ_ne_zero value)
  have high : value + 1 < 2 ^ (golombZeros value + 1) := Nat.lt_log2_self
  rw [pow_succ] at high
  rw [valueOf_fixed, Nat.mod_eq_sub_mod low, Nat.mod_eq_of_lt (by omega)]
  omega

theorem golombZeros_lt (fits : value + 1 < 2 ^ width) :
    golombZeros value < width :=
  (Nat.log2_lt (Nat.succ_ne_zero value)).mpr fits

end Scshr.Lib.ExpGolomb
