import Scshr.Lib.Unicode
import Scshr.Protocol.BplistWriter

/-! Text in property lists: the writer's way from UTF-8 to UTF-16 and the reader's way back
agree on the characters of the basic plane. -/
namespace Scshr.Protocol.Bplist

open Common Lib Lib.Unicode List

/-- UTF-8 text without characters above U+FFFF. -/
def BmpText (text : Bytes) : Prop :=
  ∃ chars : List Char, (∀ c ∈ chars, c.toNat ≤ 0xFFFF) ∧ text = chars.flatMap String.utf8EncodeChar

variable {high : Nat} {text : Bytes}

theorem pushBits (cp low : Nat) (small : low < 64) :
    cp <<< 6 ||| (low + 128 &&& 0x3F) = cp * 64 + low := by
  have bits : low + 128 &&& 0x3F = low := by
    rw [Nat.and_two_pow_sub_one_eq_mod (low + 128) 6]
    omega
  rw [bits, Nat.shiftLeft_eq]
  exact or_eq_add cp small

theorem leadBits_two (small : high < 32) : leadBits (high + 192) = (high, 2) := by
  have all : ∀ bits : Fin 32, leadBits (bits + 192) = (bits.val, 2) := by decide
  exact all ⟨high, small⟩

theorem leadBits_three (small : high < 16) : leadBits (high + 224) = (high, 3) := by
  have all : ∀ bits : Fin 16, leadBits (bits + 224) = (bits.val, 3) := by decide
  exact all ⟨high, small⟩

theorem leadBits_four (small : high < 8) : leadBits (high + 240) = (high, 4) := by
  have all : ∀ bits : Fin 8, leadBits (bits + 240) = (bits.val, 4) := by decide
  exact all ⟨high, small⟩

theorem toNat_ofNat_ascii {b : UInt8} (ascii : b < 0x80) :
    (Char.ofNat b.toNat).toNat = b.toNat := by
  have below : b.toNat < 128 := UInt8.lt_iff_toNat_lt.mp ascii
  have valid : b.toNat.isValidChar := .inl (Nat.lt_of_lt_of_le below (by decide))
  rw [Char.ofNat, dif_pos valid]
  rfl

theorem ascii_of_all (all : (text.all fun b => b < 0x80) = true) :
    ∀ b ∈ text, b < 0x80 :=
  fun b mem => of_decide_eq_true (all_eq_true.mp all b mem)

theorem bmpText_of_ascii (ascii : ∀ b ∈ text, b < 0x80) : BmpText text := by
  refine ⟨text.map fun b => Char.ofNat b.toNat, ?_, ?_⟩
  · intro c mem
    obtain ⟨b, inText, rfl⟩ := mem_map.mp mem
    rw [toNat_ofNat_ascii (ascii b inText)]
    exact Nat.le_of_lt (Nat.lt_of_lt_of_le b.toNat_lt (by decide))
  · rw [flatMap_map]
    induction text with
    | nil => rfl
    | cons b rest ih =>
      have first : b < 0x80 := ascii b mem_cons_self
      have code := toNat_ofNat_ascii first
      have short : (Char.ofNat b.toNat).toNat < 0x80 := by
        rw [code]
        exact UInt8.lt_iff_toNat_lt.mp first
      rw [flatMap_cons, encode_one short, code, UInt8.ofNat_toNat,
        ← ih fun b mem => ascii b (mem_cons_of_mem _ mem)]
      rfl

theorem utf8_eq (bmp : c.toNat ≤ 0xFFFF) : utf8 c.toNat = String.utf8EncodeChar c := by
  have trail : ∀ bits, (0x80 ||| bits &&& 0x3F) = bits % 64 + 128 := by
    intro bits
    rw [Nat.and_two_pow_sub_one_eq_mod bits 6]
    exact (or_eq_add 2 (Nat.mod_lt bits (show 0 < 2 ^ 6 by decide))).trans (Nat.add_comm _ _)
  unfold utf8
  by_cases one : c.toNat < 0x80
  · rw [if_pos one, encode_one one]
  · by_cases two : c.toNat < 0x800
    · have lead : 0xC0 ||| c.toNat >>> 6 = c.toNat / 64 + 192 := by
        rw [Nat.shiftRight_eq_div_pow]
        exact (or_eq_add 3 (show c.toNat / 64 < 2 ^ 6 by omega)).trans (Nat.add_comm _ _)
      rw [if_neg one, if_pos two, encode_two one two, trail, lead]
    · have lead : 0xE0 ||| c.toNat >>> 12 = c.toNat / 4096 + 224 := by
        rw [Nat.shiftRight_eq_div_pow]
        exact (or_eq_add 14 (show c.toNat / 4096 < 2 ^ 4 by omega)).trans (Nat.add_comm _ _)
      rw [if_neg one, if_neg two, encode_three two bmp, trail, trail, lead,
        Nat.shiftRight_eq_div_pow]

theorem utf16Units_eq (c : Char) : utf16Units c.toNat = units c := by
  unfold utf16Units units
  rw [Nat.shiftRight_eq_div_pow, Nat.and_two_pow_sub_one_eq_mod _ 10]

theorem toUtf16_encode (c : Char) (rest : Bytes) :
    toUtf16 (String.utf8EncodeChar c ++ rest) = units c ++ toUtf16 rest := by
  have byte : ∀ value < 256, (UInt8.ofNat value).toNat = value := fun _ small =>
    UInt8.toNat_ofNat_of_lt' small
  have below := toNat_lt c
  by_cases one : c.toNat < 0x80
  · have lead : leadBits c.toNat = (c.toNat, 1) := if_pos one
    rw [encode_one one, singleton_append, toUtf16, byte _ (by omega), lead]
    simp only [Nat.sub_self, take_zero, foldl_nil, drop_zero]
    rw [utf16Units_eq]
  · by_cases two : c.toNat < 0x800
    · rw [encode_two one two, cons_append, singleton_append, toUtf16,
        byte _ (by omega), leadBits_two (by omega)]
      simp only [Nat.add_one_sub_one, take_succ_cons, take_zero, foldl_cons,
        foldl_nil, drop_succ_cons, drop_zero]
      rw [byte _ (by omega), pushBits _ _ (by omega), Nat.div_add_mod', utf16Units_eq]
    · by_cases three : c.toNat ≤ 0xFFFF
      · rw [encode_three two three, cons_append, cons_append, singleton_append,
          toUtf16, byte _ (by omega), leadBits_three (by omega)]
        simp only [Nat.add_one_sub_one, take_succ_cons, take_zero, foldl_cons,
          foldl_nil, drop_succ_cons, drop_zero]
        have whole : (c.toNat / 4096 * 64 + c.toNat / 64 % 64) * 64 + c.toNat % 64 = c.toNat := by
          omega
        rw [byte _ (by omega), byte _ (by omega), pushBits _ _ (by omega),
          pushBits _ _ (by omega), whole, utf16Units_eq]
      · rw [encode_four three, cons_append, cons_append, cons_append,
          singleton_append, toUtf16, byte _ (by omega), leadBits_four (by omega)]
        simp only [Nat.add_one_sub_one, take_succ_cons, take_zero, foldl_cons,
          foldl_nil, drop_succ_cons, drop_zero]
        have whole : ((c.toNat / 262144 * 64 + c.toNat / 4096 % 64) * 64 + c.toNat / 64 % 64) * 64 +
            c.toNat % 64 = c.toNat := by
          omega
        rw [byte _ (by omega), byte _ (by omega), byte _ (by omega), pushBits _ _ (by omega),
          pushBits _ _ (by omega), pushBits _ _ (by omega), whole, utf16Units_eq]

theorem toUtf16_encodeUtf8 (chars : List Char) :
    toUtf16 (encodeUtf8 chars) = encodeUtf16 chars := by
  induction chars with
  | nil =>
    show toUtf16 [] = []
    rw [toUtf16]
  | cons c chars ih =>
    show toUtf16 (String.utf8EncodeChar c ++ encodeUtf8 chars) = units c ++ encodeUtf16 chars
    rw [toUtf16_encode, ih]

theorem flatMap_utf8_encodeUtf16 (bmp : ∀ c ∈ chars, c.toNat ≤ 0xFFFF) :
    (encodeUtf16 chars).flatMap utf8 = encodeUtf8 chars := by
  rw [encodeUtf16_bmp bmp, flatMap_map]
  exact flatMap_congr fun c mem => utf8_eq (bmp c mem)

end Scshr.Protocol.Bplist
