import Scshr.Protocol.BplistObjects

/-! A string object, from `write_string` through `read_object`.  The writer splits characters
above U+FFFF into surrogates and the reader takes every unit for a character of its own. -/
namespace Scshr.Protocol.Bplist

open Common Lib Lib.Unicode List

/-- What is read back: the units that the 32 bits of the length announce, each one encoded. -/
def storedText (chars : List Char) : Bytes :=
  ((encodeUtf16 chars).take ((encodeUtf16 chars).length % 2 ^ 32)).flatMap utf8

variable {chars : List Char}

theorem ascii_of_encodeUtf8 (ascii : ∀ b ∈ encodeUtf8 chars, b < 0x80) :
    ∀ c ∈ chars, c.toNat < 0x80 := by
  intro c mem
  have lead : ∀ b ∈ String.utf8EncodeChar c, b.toNat < 128 := fun b inside =>
    UInt8.lt_iff_toNat_lt.mp (ascii b (mem_flatMap.mpr ⟨c, mem, inside⟩))
  have byte : ∀ value < 256, (UInt8.ofNat value).toNat = value := fun _ small =>
    UInt8.toNat_ofNat_of_lt' small
  have below := toNat_lt c
  by_contra long
  by_cases two : c.toNat < 0x800
  · rw [encode_two long two] at lead
    have first := lead _ mem_cons_self
    rw [byte _ (by omega)] at first
    omega
  · by_cases three : c.toNat ≤ 0xFFFF
    · rw [encode_three two three] at lead
      have first := lead _ mem_cons_self
      rw [byte _ (by omega)] at first
      omega
    · rw [encode_four three] at lead
      have first := lead _ mem_cons_self
      rw [byte _ (by omega)] at first
      omega

theorem encodeUtf8_ascii (ascii : ∀ c ∈ chars, c.toNat < 0x80) :
    encodeUtf8 chars = chars.map fun c => UInt8.ofNat c.toNat := by
  rw [map_eq_flatMap]
  exact flatMap_congr fun c mem => encode_one (ascii c mem)

theorem storedText_bmp (bmp : ∀ c ∈ chars, c.toNat ≤ 0xFFFF) :
    storedText chars = encodeUtf8 (chars.take (chars.length % 2 ^ 32)) := by
  have part : ∀ c ∈ chars.take (chars.length % 2 ^ 32), c.toNat ≤ 0xFFFF :=
    fun c mem => bmp c (mem_of_mem_take mem)
  rw [← flatMap_utf8_encodeUtf16 part, storedText, encodeUtf16_bmp bmp, encodeUtf16_bmp part,
    length_map, map_take]

theorem utf8_highSurrogate_ne (astral : ¬ c.toNat ≤ 0xFFFF) (left right : Bytes) :
    utf8 (0xD800 + (c.toNat - 0x10000) / 1024) ++ left ≠ String.utf8EncodeChar c ++ right := by
  have byte : ∀ value < 256, (UInt8.ofNat value).toNat = value := fun _ small =>
    UInt8.toNat_ofNat_of_lt' small
  have below := toNat_lt c
  have unit : (0xD800 + (c.toNat - 0x10000) / 1024) >>> 12 = 13 := by
    rw [Nat.shiftRight_eq_div_pow]
    omega
  intro same
  unfold utf8 at same
  rw [if_neg (by omega), if_neg (by omega), unit, encode_four astral] at same
  have first := congrArg UInt8.toNat (List.cons.inj same).1
  rw [byte _ (by decide), byte _ (by omega)] at first
  have lead : 0xE0 ||| 13 = 237 := rfl
  omega

theorem bmp_of_units_eq (same : ((encodeUtf16 chars).take n).flatMap utf8 = encodeUtf8 chars) :
    ∀ c ∈ chars, c.toNat ≤ 0xFFFF := by
  induction chars generalizing n with
  | nil => exact fun c mem => absurd mem not_mem_nil
  | cons c chars ih =>
    have text : encodeUtf8 (c :: chars) = String.utf8EncodeChar c ++ encodeUtf8 chars := rfl
    have units_eq : encodeUtf16 (c :: chars) = units c ++ encodeUtf16 chars := rfl
    rw [text, units_eq] at same
    cases n with
    | zero =>
      have nonempty := length_encode_pos c
      have empty := congrArg List.length same
      rw [take_zero, flatMap_nil, length_nil, length_append] at empty
      omega
    | succ n =>
      by_cases bmp : c.toNat ≤ 0xFFFF
      · rw [units_bmp bmp, singleton_append, take_succ_cons, flatMap_cons,
          utf8_eq bmp] at same
        exact forall_mem_cons.mpr ⟨bmp, ih (append_cancel_left same)⟩
      · rw [units_astral bmp, cons_append, take_succ_cons, flatMap_cons] at same
        exact absurd same (utf8_highSurrogate_ne bmp _ _)

theorem storedText_eq_iff (chars : List Char) :
    storedText chars = encodeUtf8 chars ↔
      (∀ c ∈ chars, c.toNat ≤ 0xFFFF) ∧ chars.length < 2 ^ 32 := by
  constructor
  · intro same
    have bmp : ∀ c ∈ chars, c.toNat ≤ 0xFFFF := bmp_of_units_eq same
    rw [storedText_bmp bmp] at same
    refine ⟨bmp, ?_⟩
    by_contra long
    have shorter : chars.length % 2 ^ 32 < chars.length := by omega
    have cut := length_encodeUtf8_take_lt shorter
    rw [same] at cut
    exact absurd cut (Nat.lt_irrefl _)
  · rintro ⟨bmp, short⟩
    rw [storedText_bmp bmp, Nat.mod_eq_of_lt short, take_length]

theorem readObject_string (short : reader.d.length < 2 ^ 63) (depth : Nat)
    (offset : reader.offsets[ref]? = some pos)
    (placed : Placed reader.d pos (writeString (encodeUtf8 chars))) :
    readObject sizeT reader (depth + 1) ref true = .ok (some (.str (storedText chars), true)) := by
  unfold writeString at placed
  split at placed
  next all =>
    have ascii := ascii_of_encodeUtf8 (ascii_of_all all)
    have bmp : ∀ c ∈ chars, c.toNat ≤ 0xFFFF := fun c mem =>
      Nat.le_of_lt (Nat.lt_of_lt_of_le (ascii c mem) (by decide))
    have part : ∀ c ∈ chars.take (chars.length % 2 ^ 32), c.toNat < 0x80 :=
      fun c mem => ascii c (mem_of_mem_take mem)
    rw [readObject_ascii short depth offset placed, storedText_bmp bmp, encodeUtf8_ascii ascii,
      encodeUtf8_ascii part, length_map, map_take]
  next wide =>
    rw [toUtf16_encodeUtf8] at placed
    rw [readObject_utf16 short depth offset (encodeUtf16_lt chars) placed]
    rfl

/-- A string survives if and only if it has no character above U+FFFF and its length fits the
field. -/
theorem readObject_writeString_iff {reader : Reader} {pos ref : Nat}
    (short : reader.d.length < 2 ^ 63) (depth : Nat) (offset : reader.offsets[ref]? = some pos)
    (chars : List Char) (placed : Placed reader.d pos (writeString (encodeUtf8 chars))) :
    readObject sizeT reader (depth + 1) ref true =
        .ok (some (.str (encodeUtf8 chars), true)) ↔
      (∀ c ∈ chars, c.toNat ≤ 0xFFFF) ∧ chars.length < 2 ^ 32 := by
  rw [readObject_string short depth offset placed, ← storedText_eq_iff]
  constructor
  · intro same
    injection same with same
    injection same with same
    injection same with same
    injection same
  · intro same
    rw [same]

def stringReader (text : Bytes) : Reader :=
  ⟨writeString text, [0], 1, by decide, by decide⟩

theorem placed_stringReader (text : Bytes) : Placed (stringReader text).d 0 (writeString text) :=
  placed_self _

/-- A word with a letter of two bytes. -/
theorem readObject_writeString_word :
    readObject sizeT (stringReader (encodeUtf8 ['n', 'o', 'é'])) 1 0 true =
      .ok (some (.str (encodeUtf8 ['n', 'o', 'é']), true)) :=
  (readObject_writeString_iff (by decide +kernel) 0 rfl ['n', 'o', 'é'] (placed_stringReader _)).mpr
    ⟨by simp, by decide⟩

/-- A smiling face comes back as two surrogates of three bytes each. -/
theorem readObject_writeString_face :
    readObject sizeT (stringReader (encodeUtf8 ['😀'])) 1 0 true =
        .ok (some (.str [0xED, 0xA0, 0xBD, 0xED, 0xB8, 0x80], true)) ∧
      encodeUtf8 ['😀'] = [0xF0, 0x9F, 0x98, 0x80] := by
  refine ⟨?_, by decide⟩
  rw [readObject_string (by decide +kernel) 0 rfl (placed_stringReader _)]
  rfl

end Scshr.Protocol.Bplist
