import Mathlib.Data.List.Basic

/-! Regrouping of bytes into six-bit digits and back.  Three bytes are four digits;
a shorter last group is filled up with zero bits, and reading back insists on
them, so that every byte string has one spelling. -/
namespace Scshr.Lib.Sextets

open List

abbrev Sextet := Fin 64

def first (a : UInt8) : Sextet := ⟨a.toNat / 4, by have := a.toNat_lt; omega⟩

def second (a b : UInt8) : Sextet :=
  ⟨a.toNat % 4 * 16 + b.toNat / 16, by have := b.toNat_lt; omega⟩

def third (b c : UInt8) : Sextet :=
  ⟨b.toNat % 16 * 4 + c.toNat / 64, by have := c.toNat_lt; omega⟩

def fourth (c : UInt8) : Sextet := ⟨c.toNat % 64, by omega⟩

def ofBytes : List UInt8 → List Sextet
  | a :: b :: c :: rest => first a :: second a b :: third b c :: fourth c :: ofBytes rest
  | [a, b] => [first a, second a b, third b 0]
  | [a] => [first a, second a 0]
  | [] => []

def high (w x : Sextet) : UInt8 := UInt8.ofNat (w.val * 4 + x.val / 16)

def middle (x y : Sextet) : UInt8 := UInt8.ofNat (x.val % 16 * 16 + y.val / 4)

def low (y z : Sextet) : UInt8 := UInt8.ofNat (y.val % 4 * 64 + z.val)

def toBytes : List Sextet → Option (List UInt8)
  | w :: x :: y :: z :: rest =>
      (toBytes rest).map fun bytes => high w x :: middle x y :: low y z :: bytes
  | [w, x, y] => if y.val % 4 = 0 then some [high w x, middle x y] else none
  | [w, x] => if x.val % 16 = 0 then some [high w x] else none
  | [_] => none
  | [] => some []

section Digits

variable (a b c : UInt8) (w x y z : Sextet)

@[simp] theorem high_first : high (first a) (second a b) = a := by
  have ha := a.toNat_lt
  have hb := b.toNat_lt
  apply UInt8.toNat_inj.mp
  simp only [high, first, second, UInt8.toNat_ofNat']
  omega

@[simp] theorem middle_second : middle (second a b) (third b c) = b := by
  have hb := b.toNat_lt
  have hc := c.toNat_lt
  apply UInt8.toNat_inj.mp
  simp only [middle, second, third, UInt8.toNat_ofNat']
  omega

@[simp] theorem low_third : low (third b c) (fourth c) = c := by
  have hc := c.toNat_lt
  apply UInt8.toNat_inj.mp
  simp only [low, third, fourth, UInt8.toNat_ofNat']
  omega

@[simp] theorem first_high : first (high w x) = w := by
  apply Fin.ext
  simp only [first, high, UInt8.toNat_ofNat']
  omega

@[simp] theorem second_high : second (high w x) (middle x y) = x := by
  apply Fin.ext
  simp only [second, high, middle, UInt8.toNat_ofNat']
  omega

@[simp] theorem third_middle : third (middle x y) (low y z) = y := by
  apply Fin.ext
  simp only [third, middle, low, UInt8.toNat_ofNat']
  omega

@[simp] theorem fourth_low : fourth (low y z) = z := by
  apply Fin.ext
  simp only [fourth, low, UInt8.toNat_ofNat']
  omega

theorem third_zero : (third b 0).val % 4 = 0 := by
  simp only [third, UInt8.toNat_zero]
  omega

theorem second_zero : (second a 0).val % 16 = 0 := by
  simp only [second, UInt8.toNat_zero]
  omega

theorem third_middle_zero (h : y.val % 4 = 0) : third (middle x y) 0 = y := by
  apply Fin.ext
  simp only [third, middle, UInt8.toNat_ofNat', UInt8.toNat_zero]
  omega

theorem second_high_zero (h : x.val % 16 = 0) : second (high w x) 0 = x := by
  apply Fin.ext
  simp only [second, high, UInt8.toNat_ofNat', UInt8.toNat_zero]
  omega

end Digits

variable {digits : List Sextet}

@[simp] theorem toBytes_ofBytes (bytes : List UInt8) : toBytes (ofBytes bytes) = some bytes := by
  fun_induction ofBytes bytes with
  | case1 a b c rest ih => simp [toBytes, ih]
  | case2 a b => simp [toBytes, third_zero]
  | case3 a => simp [toBytes, second_zero]
  | case4 => rfl

theorem ofBytes_of_toBytes (h : toBytes digits = some bytes) : ofBytes bytes = digits := by
  fun_induction toBytes digits generalizing bytes with
  | case1 w x y z rest ih =>
    obtain ⟨tail, htail, rfl⟩ := Option.map_eq_some_iff.mp h
    simp [ofBytes, ih htail]
  | case2 w x y hzero =>
    obtain rfl := Option.some_inj.mp h
    simp [ofBytes, third_middle_zero x y hzero]
  | case3 w x y hzero => cases h
  | case4 w x hzero =>
    obtain rfl := Option.some_inj.mp h
    simp [ofBytes, second_high_zero w x hzero]
  | case5 w x hzero => cases h
  | case6 w => cases h
  | case7 =>
    obtain rfl := Option.some_inj.mp h
    rfl

theorem toBytes_eq_none (h : digits.length % 4 = 1) : toBytes digits = none := by
  fun_induction toBytes digits with
  | case1 w x y z rest ih =>
    simp only [length_cons] at h
    rw [ih (by omega), Option.map_none]
  | case2 w x y hzero => cases h
  | case3 w x y hzero => rfl
  | case4 w x hzero => cases h
  | case5 w x hzero => rfl
  | case6 w => rfl
  | case7 => cases h

theorem length_ofBytes (bytes : List UInt8) :
    (ofBytes bytes).length = (4 * bytes.length + 2) / 3 := by
  fun_induction ofBytes bytes with
  | case1 a b c rest ih =>
    simp only [length_cons]
    omega
  | case2 a b => simp
  | case3 a => simp
  | case4 => rfl

theorem length_ofBytes_le (bytes : List UInt8) :
    3 * (ofBytes bytes).length ≤ 4 * bytes.length + 2 := by
  rw [length_ofBytes]
  omega

theorem exists_toBytes_iff (h : digits.length % 4 = 3) :
    (∃ bytes, toBytes digits = some bytes) ↔ ∀ y ∈ digits.getLast?, y.val % 4 = 0 := by
  fun_induction toBytes digits with
  | case1 w x y z rest ih =>
    simp only [length_cons] at h
    have hrest := ih (by omega)
    cases rest with
    | nil => simp at h
    | cons v tail =>
      rw [List.getLast?_cons_cons, List.getLast?_cons_cons, List.getLast?_cons_cons,
        List.getLast?_cons_cons, ← hrest]
      simp only [Option.map_eq_some_iff]
      exact ⟨fun ⟨_, bytes, hbytes, _⟩ => ⟨bytes, hbytes⟩,
        fun ⟨bytes, hbytes⟩ => ⟨_, bytes, hbytes, rfl⟩⟩
  | case2 w x y hzero => simpa using hzero
  | case3 w x y hzero => simpa using hzero
  | case4 w x hzero => cases h
  | case5 w x hzero => cases h
  | case6 w => cases h
  | case7 => cases h

end Scshr.Lib.Sextets
