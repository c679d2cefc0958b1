import Mathlib.Data.List.Basic
import Mathlib.Tactic.Ring

/-! Byte strings and the big-endian field accessors of `common/bytes.h`.  Every
accessor is total here; a caller that reads past the end of its buffer has to
be ruled out (or exhibited) by the module that models it. -/
namespace Scshr.Common

open List

abbrev Bytes := List UInt8

def newline : UInt8 := 10

def textBytes (text : String) : Bytes := text.toList.map fun char => UInt8.ofNat char.toNat

theorem textBytes_ofList (chars : List Char) :
    textBytes (String.ofList chars) = chars.map fun char => UInt8.ofNat char.toNat := by
  rw [textBytes, String.toList_ofList]

/-- The value of a `size_t` or `uint64_t` expression. -/
def sizeT (value : Nat) : Nat := value % 2 ^ 64

def be16 (high low : UInt8) : Nat :=
  high.toNat * 256 + low.toNat

/-- `put_be16(p, uint16_t(v))`: the argument is narrowed to sixteen bits first. -/
def putBe16 (value : Nat) : Bytes :=
  [UInt8.ofNat (value / 256), UInt8.ofNat value]

def putBe32 (value : UInt32) : Bytes :=
  [UInt8.ofNat (value.toNat / 2 ^ 24), UInt8.ofNat (value.toNat / 2 ^ 16),
    UInt8.ofNat (value.toNat / 2 ^ 8), UInt8.ofNat value.toNat]

def beNat (bytes : Bytes) : Nat :=
  bytes.foldl (fun value byte => value * 256 + byte.toNat) 0

theorem beNat_lt (bytes : Bytes) : beNat bytes < 256 ^ bytes.length := by
  -- the accumulator stays below the power for the bytes already taken
  have hfold : ∀ (rest : Bytes) (value bound : Nat), value < bound →
      rest.foldl (fun value byte => value * 256 + byte.toNat) value <
        bound * 256 ^ rest.length := by
    intro rest
    induction rest with
    | nil => intro value bound hvalue; simpa using hvalue
    | cons byte rest ih =>
      intro value bound hvalue
      have hbyte := byte.toNat_lt
      have hnext : value * 256 + byte.toNat < bound * 256 := by omega
      have := ih (value * 256 + byte.toNat) (bound * 256) hnext
      simpa only [foldl_cons, length_cons, pow_succ', mul_assoc] using this
  simpa [beNat] using hfold bytes 0 1 (by omega)

@[simp] theorem putBe16_length (value : Nat) : (putBe16 value).length = 2 := rfl

@[simp] theorem putBe32_length (value : UInt32) : (putBe32 value).length = 4 := rfl

@[simp] theorem be16_ofNat (value : Nat) :
    be16 (UInt8.ofNat (value / 256)) (UInt8.ofNat value) = value % 2 ^ 16 := by
  unfold be16
  simp only [UInt8.toNat_ofNat']
  omega

def be16At (bytes : Bytes) (pos : Nat) : Nat :=
  be16 (bytes.getD pos 0) (bytes.getD (pos + 1) 0)

@[simp] theorem be16At_putBe16 (value : Nat) (rest : Bytes) :
    be16At (putBe16 value ++ rest) 0 = value % 2 ^ 16 :=
  be16_ofNat value

def be32At (bytes : Bytes) (pos : Nat) : UInt32 :=
  UInt32.ofNat (beNat ((bytes.drop pos).take 4))

theorem beNat_putBe32 (value : UInt32) : beNat (putBe32 value) = value.toNat := by
  have hlt := value.toNat_lt
  simp only [beNat, putBe32, foldl_cons, foldl_nil, UInt8.toNat_ofNat']
  omega

theorem be32At_putBe32 (front : Bytes) (value : UInt32) (rest : Bytes) :
    be32At (front ++ putBe32 value ++ rest) front.length = value := by
  have htake : ((front ++ putBe32 value ++ rest).drop front.length).take 4 = putBe32 value := by
    rw [append_assoc, drop_left]
    exact take_left' (putBe32_length value)
  rw [be32At, htake, beNat_putBe32, UInt32.ofNat_toNat]

theorem be32At_append (front rest : Bytes) (pos : Nat) (inside : pos + 4 ≤ front.length) :
    be32At (front ++ rest) pos = be32At front pos := by
  unfold be32At
  rw [drop_append_of_le_length (by omega),
    take_append_of_le_length (by rw [length_drop]; omega)]

/-- A value in `width` big-endian bytes, narrowed to them (`Writer::u8` to `u64`). -/
def putBe : Nat → Nat → Bytes
  | 0, _ => []
  | width + 1, value => putBe width (value / 256) ++ [UInt8.ofNat value]

@[simp] theorem putBe_length (width value : Nat) : (putBe width value).length = width := by
  induction width generalizing value with
  | zero => rfl
  | succ width ih => rw [putBe, length_append, ih, length_singleton]

theorem beNat_putBe (width value : Nat) : beNat (putBe width value) = value % 256 ^ width := by
  induction width generalizing value with
  | zero => exact (Nat.mod_one value).symm
  | succ width ih =>
    have last : beNat (putBe (width + 1) value) =
        beNat (putBe width (value / 256)) * 256 + (UInt8.ofNat value).toNat := by
      unfold beNat
      rw [putBe, foldl_append]
      rfl
    have power : 256 ^ (width + 1) = 256 * 256 ^ width := pow_succ' 256 width
    rw [last, ih, UInt8.toNat_ofNat', power, Nat.mod_mul]
    omega

end Scshr.Common
