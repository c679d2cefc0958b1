import Mathlib.Data.Nat.Digits.Defs

/-! Numbers as ASCII digits: writing, reading, and the one spelling without leading
zeros. -/
namespace Scshr.Lib.Decimal

open List

def isDigit (c : UInt8) : Bool := 48 ≤ c && c ≤ 57

/-- `isspace` of the C locale. -/
def isSpace (c : UInt8) : Bool := c = 32 || 9 ≤ c && c ≤ 13

def write (value : Nat) : List UInt8 :=
  (Nat.toDigits 10 value).map fun char => UInt8.ofNat char.toNat

def push (value : Nat) (c : UInt8) : Nat := value * 10 + (c.toNat - 48)

def read (text : List UInt8) : Nat := text.foldl push 0

def splitSign : List UInt8 → Bool × List UInt8
  | 45 :: digits => (true, digits)
  | 43 :: digits => (false, digits)
  | digits => (false, digits)

/-- A zero in front of another digit goes. -/
def strip : List UInt8 → List UInt8
  | c :: d :: rest => if c = 48 then strip (d :: rest) else c :: d :: rest
  | text => text

variable {c : UInt8} {value : Nat} {text : List UInt8}

theorem isDigit_iff : isDigit c ↔ 48 ≤ c.toNat ∧ c.toNat ≤ 57 := by
  simp [isDigit, UInt8.le_iff_toNat_le]

theorem not_isSpace_of_isDigit (h : isDigit c) : isSpace c = false := by
  rw [isDigit_iff] at h
  have hne : c ≠ 32 := by
    rintro rfl
    exact absurd h.1 (by decide)
  have hhigh : ¬ c ≤ 13 := by
    rw [UInt8.le_iff_toNat_le]
    have hthirteen : (13 : UInt8).toNat = 13 := rfl
    omega
  simp [isSpace, hne, hhigh]

theorem splitSign_digit (h : isDigit c) (rest : List UInt8) :
    splitSign (c :: rest) = (false, c :: rest) := by
  unfold splitSign
  split
  · case h_1 heq =>
    cases heq
    exact absurd h (by decide)
  · case h_2 heq =>
    cases heq
    exact absurd h (by decide)
  · rfl

theorem write_digit (h : isDigit c) : write (c.toNat - 48) = [c] := by
  rw [isDigit_iff] at h
  have hchar : UInt8.ofNat (Nat.digitChar (c.toNat - 48)).toNat = c := by
    rw [Nat.toNat_digitChar_of_lt_ten (by omega)]
    apply UInt8.toNat_inj.mp
    rw [UInt8.toNat_ofNat']
    omega
  rw [write, Nat.toDigits_of_lt_base (by omega), map_singleton, hchar]

theorem write_push (hpos : 0 < value) (h : isDigit c) :
    write (push value c) = write value ++ [c] := by
  have hdigit := isDigit_iff.mp h
  have happend := @Nat.toDigits_append_toDigits 10 value (c.toNat - 48) (by omega) hpos (by omega)
  rw [Nat.mul_comm] at happend
  rw [← write_digit h, write, push, ← happend, map_append]
  rfl

theorem write_foldl (hpos : 0 < value) (h : text.all isDigit) :
    write (text.foldl push value) = write value ++ text := by
  induction text generalizing value with
  | nil => rw [foldl_nil, append_nil]
  | cons c rest ih =>
    simp only [all_cons, Bool.and_eq_true] at h
    have hnext : 0 < push value c := by
      unfold push
      omega
    rw [foldl_cons, ih hnext h.2, write_push hpos h.1, append_assoc]
    rfl

theorem write_read (hne : text ≠ []) (h : text.all isDigit) : write (read text) = strip text := by
  fun_induction strip text with
  | case1 d rest ih =>
    simp only [all_cons, Bool.and_eq_true] at h
    have hread : read (48 :: d :: rest) = read (d :: rest) := rfl
    rw [hread]
    apply ih (cons_ne_nil d rest)
    simp only [all_cons, Bool.and_eq_true]
    exact h.2
  | case2 c d rest hc =>
    rw [all_cons, Bool.and_eq_true] at h
    have hdigit := isDigit_iff.mp h.1
    have hnonzero : c.toNat ≠ 48 := fun hzero => hc (UInt8.toNat_inj.mp hzero)
    have hpush : push 0 c = c.toNat - 48 := Nat.zero_add _
    rw [read, foldl_cons, hpush, write_foldl (by omega) h.2, write_digit h.1]
    rfl
  | case3 text hshort =>
    match text, hne with
    | [c], _ =>
      rw [all_cons, Bool.and_eq_true] at h
      have hread : read [c] = c.toNat - 48 := Nat.zero_add _
      rw [hread, write_digit h.1]
    | c :: d :: rest, _ => exact absurd rfl (hshort c d rest)

theorem exists_write (h : 10 ≤ value) :
    ∃ c, isDigit c ∧ c.toNat - 48 = value % 10 ∧ write value = write (value / 10) ++ [c] := by
  have hlt : value % 10 < 10 := Nat.mod_lt _ (by omega)
  have hc : (UInt8.ofNat (48 + value % 10)).toNat = 48 + value % 10 := by
    rw [UInt8.toNat_ofNat']
    omega
  have hdigit : isDigit (UInt8.ofNat (48 + value % 10)) := by
    rw [isDigit_iff, hc]
    omega
  have hpush : push (value / 10) (UInt8.ofNat (48 + value % 10)) = value := by
    rw [push, hc]
    omega
  refine ⟨UInt8.ofNat (48 + value % 10), hdigit, by omega, ?_⟩
  rw [← write_push (by omega) hdigit, hpush]

theorem exists_write_of_lt (h : value < 10) :
    ∃ c, isDigit c ∧ c.toNat - 48 = value ∧ write value = [c] := by
  have hc : (UInt8.ofNat (48 + value)).toNat = 48 + value := by
    rw [UInt8.toNat_ofNat']
    omega
  have hdigit : isDigit (UInt8.ofNat (48 + value)) := by
    rw [isDigit_iff, hc]
    omega
  have hvalue : (UInt8.ofNat (48 + value)).toNat - 48 = value := by omega
  refine ⟨UInt8.ofNat (48 + value), hdigit, hvalue, ?_⟩
  rw [← write_digit hdigit, hvalue]

theorem write_all (value : Nat) : (write value).all isDigit := by
  induction value using Nat.strongRecOn with
  | ind value ih =>
    by_cases hlt : value < 10
    · obtain ⟨c, hdigit, -, hwrite⟩ := exists_write_of_lt hlt
      simp [hwrite, hdigit]
    · obtain ⟨c, hdigit, -, hwrite⟩ := exists_write (Nat.le_of_not_lt hlt)
      simp [hwrite, hdigit, ih (value / 10) (by omega)]

@[simp] theorem read_write (value : Nat) : read (write value) = value := by
  induction value using Nat.strongRecOn with
  | ind value ih =>
    by_cases hlt : value < 10
    · obtain ⟨c, -, hvalue, hwrite⟩ := exists_write_of_lt hlt
      rw [hwrite, ← hvalue]
      exact Nat.zero_add _
    · obtain ⟨c, -, hvalue, hwrite⟩ := exists_write (Nat.le_of_not_lt hlt)
      have hfront : (write (value / 10)).foldl push 0 = value / 10 := ih _ (by omega)
      rw [hwrite, read, foldl_append, hfront, foldl_cons, foldl_nil, push, hvalue]
      omega

theorem write_injective (h : write left = write right) : left = right := by
  rw [← read_write left, h, read_write]

theorem write_ne_nil (value : Nat) : write value ≠ [] := by
  by_cases hlt : value < 10
  · obtain ⟨c, -, -, hwrite⟩ := exists_write_of_lt hlt
    simp [hwrite]
  · obtain ⟨c, -, -, hwrite⟩ := exists_write (Nat.le_of_not_lt hlt)
    simp [hwrite]

theorem length_write_le (hpos : 0 < bound) (h : value < 10 ^ bound) :
    (write value).length ≤ bound := by
  rw [write, length_map]
  exact Nat.toDigits_length 10 value bound hpos h

theorem strip_write (value : Nat) : strip (write value) = write value := by
  rw [← write_read (write_ne_nil value) (write_all value), read_write]

theorem length_strip_le (text : List UInt8) : (strip text).length ≤ text.length := by
  fun_induction strip text with
  | case1 d rest ih => exact Nat.le_succ_of_le ih
  | case2 c d rest hc => exact Nat.le_refl _
  | case3 text hshort => exact Nat.le_refl _

theorem strip_eq_self_iff : strip text = text ↔ ¬ (1 < text.length ∧ text.head? = some 48) := by
  match text with
  | [] => simp [strip]
  | [c] => simp [strip]
  | c :: d :: rest =>
    have hlength := length_strip_le (d :: rest)
    by_cases hc : c = 48
    · constructor
      · intro hstrip
        rw [strip, if_pos hc] at hstrip
        rw [hstrip] at hlength
        simp only [length_cons] at hlength
        omega
      · intro hcanonical
        simp [hc] at hcanonical
    · simp [strip, hc]

end Scshr.Lib.Decimal
