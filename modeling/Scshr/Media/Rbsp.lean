import Scshr.Lib.ExpGolomb
import Scshr.Media.HevcSlice

/-! Raw byte sequence payloads (`media/bitstream.h`): emulation prevention is removed as it was
put in, a truncated payload shows the same bytes, and Exp-Golomb codes are read back. -/
namespace Scshr.Media

open Common Lib.ExpGolomb List

/-- Emulation prevention behind so many zero bytes: a three goes in front of every byte up to
three that follows two zeros of the output. -/
def escapeRbsp : Nat → Bytes → Bytes
  | _, [] => []
  | zeros, b :: rest =>
    if zeros = 2 ∧ b ≤ 3 then 3 :: b :: escapeRbsp (if b = 0 then 1 else 0) rest
    else b :: escapeRbsp (if b = 0 then zeros + 1 else 0) rest

theorem remove_cons_of_ne (rest : Bytes) (nonzero : b ≠ 0) :
    removeEmulationPrevention (b :: rest) = b :: removeEmulationPrevention rest := by
  rcases rest with - | ⟨c, - | ⟨e, rest⟩⟩
  · rfl
  · rfl
  · rw [removeEmulationPrevention, if_neg fun escaped => nonzero escaped.1]

theorem remove_zeros_cons (rest : Bytes) (few : zeros ≤ 2) (nonzero : b ≠ 0)
    (plain : zeros = 2 → b ≠ 3) :
    removeEmulationPrevention (replicate zeros 0 ++ b :: rest) =
      replicate zeros 0 ++ b :: removeEmulationPrevention rest := by
  have one : removeEmulationPrevention (0 :: b :: rest) =
      0 :: b :: removeEmulationPrevention rest := by
    rw [← remove_cons_of_ne rest nonzero]
    cases rest with
    | nil => rfl
    | cons c rest => rw [removeEmulationPrevention, if_neg fun escaped => nonzero escaped.2.1]
  obtain rfl | rfl | rfl : zeros = 0 ∨ zeros = 1 ∨ zeros = 2 := by omega
  · exact remove_cons_of_ne rest nonzero
  · exact one
  · change removeEmulationPrevention (0 :: 0 :: b :: rest) = 0 :: 0 :: b :: _
    rw [removeEmulationPrevention, if_neg fun escaped => plain rfl escaped.2.2, one]

/-- The remover has the zeros in front that the escaper has counted. -/
theorem remove_escape (r : Bytes) (few : zeros ≤ 2) :
    removeEmulationPrevention (replicate zeros 0 ++ escapeRbsp zeros r) =
      replicate zeros 0 ++ r := by
  induction r generalizing zeros with
  | nil =>
    obtain rfl | rfl | rfl : zeros = 0 ∨ zeros = 1 ∨ zeros = 2 := by omega
    all_goals rfl
  | cons b rest ih =>
    have plain := @ih 0 (by decide)
    rw [replicate_zero, nil_append, nil_append] at plain
    rw [escapeRbsp]
    split
    case isTrue escaped =>
      obtain ⟨rfl, -⟩ := escaped
      change removeEmulationPrevention (0 :: 0 :: 3 :: b :: _) = 0 :: 0 :: b :: rest
      rw [removeEmulationPrevention, if_pos ⟨rfl, rfl, rfl⟩]
      by_cases zero : b = 0
      · rw [if_pos zero, zero]
        exact congrArg (0 :: 0 :: ·) (@ih 1 (by decide))
      · rw [if_neg zero, remove_cons_of_ne _ zero, plain]
    case isFalse unescaped =>
      by_cases zero : b = 0
      · have fewer : zeros ≠ 2 := fun two => unescaped ⟨two, by rw [zero]; decide⟩
        have next := @ih (zeros + 1) (by omega)
        rw [replicate_succ', append_assoc, append_assoc] at next
        rw [zero, if_pos rfl]
        exact next
      · have large : zeros = 2 → b ≠ 3 := fun two three => unescaped ⟨two, by rw [three]; decide⟩
        rw [if_neg zero, remove_zeros_cons _ few zero large, plain]

theorem remove_cons (b : UInt8) (rest : Bytes) :
    ∃ out, removeEmulationPrevention (b :: rest) = b :: out := by
  rcases rest with - | ⟨c, - | ⟨e, rest⟩⟩
  · exact ⟨[], rfl⟩
  · exact ⟨[c], rfl⟩
  · rw [removeEmulationPrevention]
    split
    case isTrue escaped => exact ⟨_, congrArg (· :: _) escaped.1.symm⟩
    case isFalse => exact ⟨_, rfl⟩

theorem prefix_remove (p tail : Bytes) :
    removeEmulationPrevention p <+: removeEmulationPrevention (p ++ tail) := by
  induction p using removeEmulationPrevention.induct with
  | case1 a b c rest escaped ih =>
    rw [cons_append, cons_append, cons_append, removeEmulationPrevention,
      if_pos escaped, removeEmulationPrevention, if_pos escaped]
    exact (prefix_append_right_inj [0, 0]).mpr ih
  | case2 a b c rest plain ih =>
    rw [cons_append, cons_append, cons_append, removeEmulationPrevention,
      if_neg plain, removeEmulationPrevention, if_neg plain]
    exact (prefix_cons_inj a).mpr ih
  | case3 bytes short =>
    rw [removeEmulationPrevention.eq_2 bytes short]
    rcases bytes with - | ⟨a, - | ⟨b, - | ⟨c, rest⟩⟩⟩
    · exact nil_prefix
    · obtain ⟨out, eq⟩ := remove_cons a tail
      exact ⟨out, eq.symm⟩
    · cases tail with
      | nil => exact prefix_rfl
      | cons c tail =>
        obtain ⟨out, eq⟩ := remove_cons b (c :: tail)
        rw [cons_append, cons_append, nil_append, removeEmulationPrevention, eq]
        split
        case isTrue escaped =>
          obtain ⟨rfl, rfl, -⟩ := escaped
          exact ⟨_, rfl⟩
        case isFalse => exact ⟨out, rfl⟩
    · exact absurd rfl (short a b c rest)

/-! ## Exp-Golomb codes -/

def bitsOf (d : Bytes) : List Bool := d.flatMap fun octet => fixed 8 octet.toNat

theorem length_bitsOf (d : Bytes) : (bitsOf d).length = 8 * d.length := by
  induction d with
  | nil => rfl
  | cons octet d ih =>
    rw [bitsOf, flatMap_cons, length_append, length_fixed, length_cons]
    change 8 + (bitsOf d).length = _
    omega

theorem getElem?_fixed (value : Nat) (inside : i < width) :
    (fixed width value)[i]? = some (value.testBit (width - 1 - i)) := by
  induction width generalizing i with
  | zero => omega
  | succ width ih =>
    cases i with
    | zero => rfl
    | succ i =>
      rw [fixed, List.getElem?_cons_succ, ih (by omega)]
      congr 2
      omega

theorem getElem?_bitsOf (inside : pos < 8 * d.length) :
    (bitsOf d)[pos]? = some ((d.getD (pos / 8) 0).toNat.testBit (7 - pos % 8)) := by
  induction d generalizing pos with
  | nil => exact absurd inside (Nat.not_lt_zero pos)
  | cons octet d ih =>
    rw [bitsOf, flatMap_cons]
    by_cases here : pos < 8
    · rw [List.getElem?_append_left (by rw [length_fixed]; exact here), getElem?_fixed _ here,
        Nat.div_eq_of_lt here, Nat.mod_eq_of_lt here]
      rfl
    · rw [List.getElem?_append_right (by rw [length_fixed]; omega), length_fixed]
      have later := @ih (pos - 8) (by rw [length_cons] at inside; omega)
      have octets : pos / 8 = (pos - 8) / 8 + 1 := by omega
      have offset : pos % 8 = (pos - 8) % 8 := by omega
      rw [octets, offset, getD_cons_succ]
      exact later

namespace BitReader

variable {d : Bytes} {pos value : Nat} {tail : List Bool}

theorem read1_of_ahead {bit : Bool} (ahead : (bitsOf d).drop pos = bit :: tail) :
    read1 ⟨d, pos⟩ = (bit.toNat, ⟨d, pos + 1⟩) ∧ (bitsOf d).drop (pos + 1) = tail := by
  have found : (bitsOf d)[pos]? = some bit := by
    rw [← List.head?_drop, ahead]
    rfl
  have inside : pos < 8 * d.length := by
    rw [← length_bitsOf]
    exact (List.getElem?_eq_some_iff.mp found).1
  rw [getElem?_bitsOf inside, Option.some_inj] at found
  constructor
  · rw [read1, Nat.shiftRight_eq_div_pow, ← Nat.toNat_testBit, found]
  · rw [← drop_drop, ahead]
    rfl

theorem shiftIn_eq (bits : List Bool) (bit : Bool) (value : Nat) :
    ((value * 2 + bit.toNat) % 2 ^ 32 * 2 ^ bits.length + valueOf bits) % 2 ^ 32 =
      (value * 2 ^ (bit :: bits).length + valueOf (bit :: bits)) % 2 ^ 32 := by
  rw [Nat.add_mod, Nat.mod_mul_mod, ← Nat.add_mod, length_cons, valueOf, pow_succ]
  congr 1
  ring

theorem readFrom_of_ahead {bits : List Bool} (ahead : (bitsOf d).drop pos = bits ++ tail)
    (fits : value < 2 ^ 32) :
    readFrom bits.length value ⟨d, pos⟩ =
      ((value * 2 ^ bits.length + valueOf bits) % 2 ^ 32, ⟨d, pos + bits.length⟩) := by
  induction bits generalizing pos value with
  | nil =>
    rw [length_nil, pow_zero, Nat.mul_one, valueOf, Nat.add_zero, Nat.mod_eq_of_lt fits]
    rfl
  | cons bit bits ih =>
    obtain ⟨first, behind⟩ := read1_of_ahead ahead
    have later := ih behind (Nat.mod_lt (value * 2 + bit.toNat) (Nat.two_pow_pos 32))
    change readFrom bits.length ((value * 2 + (read1 ⟨d, pos⟩).1) % 2 ^ 32) (read1 ⟨d, pos⟩).2 = _
    rw [first, later, shiftIn_eq, length_cons, Nat.add_right_comm, Nat.add_assoc]

theorem countZeros_of_ahead {zeros left : Nat} (few : zeros ≤ left)
    (ahead : (bitsOf d).drop pos = replicate zeros false ++ true :: tail) :
    countZeros left ⟨d, pos⟩ = (zeros, ⟨d, pos + (zeros + 1)⟩) ∧
      (bitsOf d).drop (pos + (zeros + 1)) = tail := by
  induction zeros generalizing left pos with
  | zero =>
    obtain ⟨first, behind⟩ := read1_of_ahead ahead
    refine ⟨?_, behind⟩
    cases left with
    | zero =>
      change (0, (read1 ⟨d, pos⟩).2) = _
      rw [first]
    | succ left =>
      change (if (read1 ⟨d, pos⟩).1 = 0 then _ else pure 0 : BitParser Nat) (read1 ⟨d, pos⟩).2 = _
      rw [first]
      rfl
  | succ zeros ih =>
    cases left with
    | zero => omega
    | succ left =>
      obtain ⟨first, behind⟩ := read1_of_ahead ahead
      obtain ⟨later, rest⟩ := ih (Nat.le_of_succ_le_succ few) behind
      rw [Nat.add_assoc, Nat.add_comm 1] at later rest
      refine ⟨?_, rest⟩
      change (if (read1 ⟨d, pos⟩).1 = 0 then countZeros left >>= fun zeros => pure (zeros + 1)
        else pure 0 : BitParser Nat) (read1 ⟨d, pos⟩).2 = _
      rw [first]
      change ((countZeros left ⟨d, pos + 1⟩).1 + 1, (countZeros left ⟨d, pos + 1⟩).2) = _
      rw [later]

theorem readUe_golomb (fits : value ≤ 2 ^ 32 - 2)
    (coded : (bitsOf d).drop pos = golomb value ++ tail) :
    readUe ⟨d, pos⟩ = (value, ⟨d, pos + (golomb value).length⟩) := by
  have few : golombZeros value < 32 := golombZeros_lt (by omega)
  have number := valueOf_golomb value
  have length := length_golomb value
  rw [golomb, append_assoc, cons_append] at coded
  obtain ⟨zeros, behind⟩ := countZeros_of_ahead (Nat.le_of_lt few) coded
  have suffix := readFrom_of_ahead behind (Nat.two_pow_pos 32)
  rw [length_fixed, Nat.zero_mul, Nat.zero_add] at suffix
  have result : (2 ^ (golombZeros value % 32) - 1 +
      valueOf (fixed (golombZeros value) (value + 1)) % 2 ^ 32) % 2 ^ 32 = value := by
    have positive := Nat.two_pow_pos (golombZeros value)
    rw [Nat.mod_eq_of_lt few]
    omega
  change ((2 ^ ((countZeros 32 ⟨d, pos⟩).1 % 32) - 1 +
      (readFrom (countZeros 32 ⟨d, pos⟩).1 0 (countZeros 32 ⟨d, pos⟩).2).1) % 2 ^ 32,
    (readFrom (countZeros 32 ⟨d, pos⟩).1 0 (countZeros 32 ⟨d, pos⟩).2).2) = _
  have ends : pos + (golombZeros value + 1) + golombZeros value = pos + (golomb value).length := by
    omega
  rw [zeros, suffix, result, ends]

end BitReader

/-- Every payload comes back from its escaped form, a prefix of a NAL shows a prefix of its
payload, and every code that fits is read with exactly its bits. -/
theorem rbsp_extraction :
    (∀ r, removeEmulationPrevention (escapeRbsp 0 r) = r) ∧
    (∀ p d, p <+: d → removeEmulationPrevention p <+: removeEmulationPrevention d) ∧
    ∀ v ≤ 2 ^ 32 - 2, ∀ d pos rest, (bitsOf d).drop pos = golomb v ++ rest →
      BitReader.readUe ⟨d, pos⟩ = (v, ⟨d, pos + (golomb v).length⟩) := by
  refine ⟨fun r => remove_escape r (Nat.zero_le 2), ?_, ?_⟩
  · rintro p d ⟨tail, rfl⟩
    exact prefix_remove p tail
  · intro v fits d pos rest
    exact BitReader.readUe_golomb fits

end Scshr.Media
