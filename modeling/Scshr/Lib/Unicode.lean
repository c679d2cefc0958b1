import Mathlib.Algebra.Group.Nat.Defs
import Mathlib.Data.List.Basic

/-! The two encodings of Unicode text: the bytes of a character in UTF-8, by its size, and its
units in UTF-16. -/
namespace Scshr.Lib.Unicode

open List

variable {c : Char} {chars : List Char}

theorem or_eq_add (high : Nat) {low k : Nat} (small : low < 2 ^ k) :
    high * 2 ^ k ||| low = high * 2 ^ k + low := by
  rw [← Nat.shiftLeft_eq, Nat.shiftLeft_add_eq_or_of_lt small]

theorem toNat_lt (c : Char) : c.toNat < 0x110000 :=
  c.valid.elim (fun low => Nat.lt_trans low (by decide)) fun high => high.2

theorem not_surrogate (c : Char) : c.toNat < 0xD800 ∨ 0xDFFF < c.toNat :=
  c.valid.imp id fun high => high.1

/-! ## UTF-8 -/

def encodeUtf8 (chars : List Char) : List UInt8 := chars.flatMap String.utf8EncodeChar

theorem encode_one (short : c.toNat < 0x80) :
    String.utf8EncodeChar c = [UInt8.ofNat c.toNat] :=
  if_pos (Nat.le_of_lt_succ short)

theorem encode_two (long : ¬ c.toNat < 0x80) (short : c.toNat < 0x800) :
    String.utf8EncodeChar c =
      [UInt8.ofNat (c.toNat / 64 + 192), UInt8.ofNat (c.toNat % 64 + 128)] := by
  have lead : c.toNat / 64 % 32 = c.toNat / 64 := Nat.mod_eq_of_lt (by omega)
  have more : ¬ c.toNat ≤ 127 := by omega
  rw [← lead]
  exact (if_neg more).trans (if_pos (Nat.le_of_lt_succ short))

theorem encode_three (long : ¬ c.toNat < 0x800) (bmp : c.toNat ≤ 0xFFFF) :
    String.utf8EncodeChar c =
      [UInt8.ofNat (c.toNat / 4096 + 224), UInt8.ofNat (c.toNat / 64 % 64 + 128),
        UInt8.ofNat (c.toNat % 64 + 128)] := by
  have lead : c.toNat / 4096 % 16 = c.toNat / 4096 := Nat.mod_eq_of_lt (by omega)
  have more : ¬ c.toNat ≤ 127 := by omega
  have most : ¬ c.toNat ≤ 2047 := by omega
  rw [← lead]
  exact (if_neg more).trans ((if_neg most).trans (if_pos bmp))

theorem encode_four (astral : ¬ c.toNat ≤ 0xFFFF) :
    String.utf8EncodeChar c =
      [UInt8.ofNat (c.toNat / 262144 + 240), UInt8.ofNat (c.toNat / 4096 % 64 + 128),
        UInt8.ofNat (c.toNat / 64 % 64 + 128), UInt8.ofNat (c.toNat % 64 + 128)] := by
  have below := toNat_lt c
  have lead : c.toNat / 262144 % 8 = c.toNat / 262144 := Nat.mod_eq_of_lt (by omega)
  have more : ¬ c.toNat ≤ 127 := by omega
  have most : ¬ c.toNat ≤ 2047 := by omega
  rw [← lead]
  exact (if_neg more).trans ((if_neg most).trans (if_neg astral))

theorem length_encode_pos (c : Char) : 0 < (String.utf8EncodeChar c).length := by
  rw [String.length_utf8EncodeChar]
  exact c.utf8Size_pos

theorem length_encodeUtf8_take_lt (short : n < chars.length) :
    (encodeUtf8 (chars.take n)).length < (encodeUtf8 chars).length := by
  have split : encodeUtf8 chars = encodeUtf8 (chars.take n) ++ encodeUtf8 (chars.drop n) := by
    unfold encodeUtf8
    rw [← flatMap_append, take_append_drop]
  have more : 0 < (encodeUtf8 (chars.drop n)).length := by
    rw [drop_eq_getElem_cons short, encodeUtf8, flatMap_cons, length_append]
    exact Nat.add_pos_left (length_encode_pos _) _
  rw [split, length_append]
  omega

/-! ## UTF-16 -/

def units (c : Char) : List Nat :=
  if 0x10000 ≤ c.toNat then
    [0xD800 + (c.toNat - 0x10000) / 1024, 0xDC00 + (c.toNat - 0x10000) % 1024]
  else [c.toNat]

def encodeUtf16 (chars : List Char) : List Nat := chars.flatMap units

theorem units_bmp (bmp : c.toNat ≤ 0xFFFF) : units c = [c.toNat] :=
  if_neg (by omega)

theorem units_astral (astral : ¬ c.toNat ≤ 0xFFFF) :
    units c = [0xD800 + (c.toNat - 0x10000) / 1024, 0xDC00 + (c.toNat - 0x10000) % 1024] :=
  if_pos (by omega)

theorem units_lt (c : Char) : ∀ unit ∈ units c, unit < 65536 := by
  have below := toNat_lt c
  intro unit mem
  unfold units at mem
  split at mem
  · rcases mem_pair.mp mem with eq | eq <;> omega
  · rw [mem_singleton.mp mem]
    omega

theorem encodeUtf16_lt (chars : List Char) : ∀ unit ∈ encodeUtf16 chars, unit < 65536 := by
  intro unit mem
  obtain ⟨c, _, inside⟩ := mem_flatMap.mp mem
  exact units_lt c unit inside

theorem encodeUtf16_bmp (bmp : ∀ c ∈ chars, c.toNat ≤ 0xFFFF) :
    encodeUtf16 chars = chars.map Char.toNat := by
  rw [map_eq_flatMap]
  exact flatMap_congr fun c mem => units_bmp (bmp c mem)

end Scshr.Lib.Unicode
