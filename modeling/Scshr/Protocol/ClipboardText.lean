import Scshr.Lib.Unicode
import Scshr.Protocol.ClipboardItems

/-! The UTF-16 flavours of clipboard text.  `text_from_items` takes the units two bytes at a
time, joins surrogates and pushes UTF-8, all in 32-bit arithmetic. -/
namespace Scshr.Protocol

open Common Lib.Unicode List

/-! ## The type of an item -/

theorem containsBytes_iff (s sub : Bytes) : containsBytes s sub = true ↔ sub <:+: s := by
  unfold containsBytes
  rw [any_eq_true, infix_iff_prefix_suffix]
  constructor
  · rintro ⟨tail, mem, starts⟩
    exact ⟨tail, isPrefixOf_iff_prefix.mp starts, (mem_tails _ _).mp mem⟩
  · rintro ⟨tail, starts, ends⟩
    exact ⟨tail, (mem_tails _ _).mpr ends, isPrefixOf_iff_prefix.mpr starts⟩

/-- `public.*text*`. -/
def PublicText (uti : Bytes) : Prop := textBytes "public." <+: uti ∧ textBytes "text" <:+: uti

instance (uti : Bytes) : Decidable (PublicText uti) := inferInstanceAs (Decidable (_ ∧ _))

theorem isPublicText_iff (item : Item) : item.isPublicText = true ↔ PublicText item.primaryUti := by
  unfold Item.isPublicText
  rw [Bool.and_eq_true, isPrefixOf_iff_prefix, containsBytes_iff]
  rfl

/-! ## Units -/

/-- Text as the units of UTF-16, each one with its high byte first or last. -/
def utf16Bytes (bigEndian : Bool) (chars : List Char) : Bytes :=
  (encodeUtf16 chars).flatMap fun unit =>
    if bigEndian then putBe16 unit else (putBe16 unit).reverse

theorem utf16Units_utf16Bytes (bigEndian : Bool) (chars : List Char) :
    utf16Units bigEndian (utf16Bytes bigEndian chars) = (encodeUtf16 chars).map UInt32.ofNat := by
  have small := encodeUtf16_lt chars
  unfold utf16Bytes
  generalize encodeUtf16 chars = units at small
  induction units with
  | nil => rfl
  | cons unit units ih =>
    have value : be16 (UInt8.ofNat (unit / 256)) (UInt8.ofNat unit) = unit :=
      (be16_ofNat unit).trans (Nat.mod_eq_of_lt (small unit mem_cons_self))
    have rest := ih fun other mem => small other (mem_cons_of_mem unit mem)
    rw [flatMap_cons, map_cons, ← rest]
    cases bigEndian with
    | true =>
      show UInt32.ofNat (be16 (UInt8.ofNat (unit / 256)) (UInt8.ofNat unit)) :: _ = _
      rw [value]
      rfl
    | false =>
      show UInt32.ofNat (be16 (UInt8.ofNat (unit / 256)) (UInt8.ofNat unit)) :: _ = _
      rw [value]
      rfl

/-! ## Bytes -/

theorem leadByte_eq (above : mark.toNat = high * 2 ^ width) (fits : bits.toNat < 2 ^ width) :
    leadByte mark bits = UInt8.ofNat (bits.toNat + mark.toNat) := by
  apply UInt8.toNat_inj.mp
  unfold leadByte
  rw [UInt32.toNat_toUInt8, UInt32.toNat_or, above, or_eq_add high fits, UInt8.toNat_ofNat',
    Nat.add_comm]

theorem trailByte_eq (bits : UInt32) : trailByte bits = UInt8.ofNat (bits.toNat % 64 + 128) := by
  have low : (bits &&& 0x3F).toNat = bits.toNat % 64 := by
    rw [UInt32.toNat_and]
    exact Nat.and_two_pow_sub_one_eq_mod bits.toNat 6
  have fits : (bits &&& 0x3F).toNat < 2 ^ 6 := by
    rw [low]
    exact Nat.mod_lt _ (by decide)
  have byte := leadByte_eq (show (0x80 : UInt32).toNat = 2 * 2 ^ 6 from rfl) fits
  rw [low] at byte
  exact byte

theorem toNat_shift (cp : UInt32) (few : shift.toNat < 32) :
    (cp >>> shift).toNat = cp.toNat / 2 ^ shift.toNat := by
  rw [UInt32.toNat_shiftRight, Nat.mod_eq_of_lt few, Nat.shiftRight_eq_div_pow]

theorem utf8Of_eq (same : cp.toNat = c.toNat) : utf8Of cp = String.utf8EncodeChar c := by
  have below := toNat_lt c
  have less : ∀ bound : UInt32, cp < bound ↔ c.toNat < bound.toNat := fun bound => by
    rw [UInt32.lt_iff_toNat_lt, same]
  have six : (cp >>> 6).toNat = c.toNat / 64 := by
    rw [toNat_shift cp (by decide), same]
    rfl
  have twelve : (cp >>> 12).toNat = c.toNat / 4096 := by
    rw [toNat_shift cp (by decide), same]
    rfl
  have eighteen : (cp >>> 18).toNat = c.toNat / 262144 := by
    rw [toNat_shift cp (by decide), same]
    rfl
  unfold utf8Of
  by_cases one : c.toNat < 0x80
  · rw [if_pos ((less 0x80).mpr one), encode_one one, ← same]
    rfl
  · rw [if_neg fun lt => one ((less 0x80).mp lt)]
    by_cases two : c.toNat < 0x800
    · rw [if_pos ((less 0x800).mpr two), encode_two one two, trailByte_eq, same,
        leadByte_eq (show (0xC0 : UInt32).toNat = 6 * 2 ^ 5 from rfl) (by omega), six]
      rfl
    · rw [if_neg fun lt => two ((less 0x800).mp lt)]
      by_cases three : c.toNat ≤ 0xFFFF
      · have lt : c.toNat < 0x10000 := Nat.lt_succ_of_le three
        rw [if_pos ((less 0x10000).mpr lt), encode_three two three, trailByte_eq, trailByte_eq,
          six, same, leadByte_eq (show (0xE0 : UInt32).toNat = 14 * 2 ^ 4 from rfl) (by omega),
          twelve]
        rfl
      · rw [if_neg fun lt => three (Nat.le_of_lt_succ ((less 0x10000).mp lt)), encode_four three,
          trailByte_eq, trailByte_eq, trailByte_eq, twelve, six, same,
          leadByte_eq (show (0xF0 : UInt32).toNat = 30 * 2 ^ 3 from rfl) (by omega), eighteen]
        rfl

/-! ## Text -/

theorem utf16Text_cons (plain : ¬ (0xD800 ≤ unit ∧ unit ≤ 0xDBFF)) (rest : List UInt32) :
    utf16Text (unit :: rest) = utf8Of unit ++ utf16Text rest := by
  cases rest with
  | nil => rw [utf16Text, utf16Text, append_nil]
  | cons next rest => rw [utf16Text, if_neg plain]

theorem utf16Text_units (c : Char) (rest : List UInt32) :
    utf16Text ((units c).map UInt32.ofNat ++ rest) =
      String.utf8EncodeChar c ++ utf16Text rest := by
  have below := toNat_lt c
  have value : ∀ unit < 0x110000, (UInt32.ofNat unit).toNat = unit := fun unit small =>
    UInt32.toNat_ofNat_of_lt' (Nat.lt_trans small (by decide))
  by_cases bmp : c.toNat ≤ 0xFFFF
  · have same := value c.toNat below
    have plain : ¬ (0xD800 ≤ UInt32.ofNat c.toNat ∧ UInt32.ofNat c.toNat ≤ 0xDBFF) := by
      rw [UInt32.le_iff_toNat_le, UInt32.le_iff_toNat_le, same]
      show ¬ (0xD800 ≤ c.toNat ∧ c.toNat ≤ 0xDBFF)
      have outside := not_surrogate c
      omega
    rw [units_bmp bmp]
    show utf16Text (UInt32.ofNat c.toNat :: rest) = _
    rw [utf16Text_cons plain, utf8Of_eq same]
  · rw [units_astral bmp]
    generalize high_eq : 0xD800 + (c.toNat - 0x10000) / 1024 = high
    generalize low_eq : 0xDC00 + (c.toNat - 0x10000) % 1024 = low
    have high_val := value high (by omega)
    have low_val := value low (by omega)
    have surrogate : 0xD800 ≤ UInt32.ofNat high ∧ UInt32.ofNat high ≤ 0xDBFF := by
      rw [UInt32.le_iff_toNat_le, UInt32.le_iff_toNat_le, high_val]
      show 0xD800 ≤ high ∧ high ≤ 0xDBFF
      omega
    have top : (UInt32.ofNat high - 0xD800).toNat = high - 0xD800 := by
      rw [UInt32.toNat_sub_of_le _ _ surrogate.1, high_val]
      rfl
    have bottom : (UInt32.ofNat low - 0xDC00).toNat = low - 0xDC00 := by
      have above : 0xDC00 ≤ UInt32.ofNat low := by
        rw [UInt32.le_iff_toNat_le, low_val]
        show 0xDC00 ≤ low
        omega
      rw [UInt32.toNat_sub_of_le _ _ above, low_val]
      rfl
    have shifted : ((UInt32.ofNat high - 0xD800) <<< (10 : UInt32)).toNat =
        (high - 0xD800) * 1024 := by
      rw [UInt32.toNat_shiftLeft, top, show (10 : UInt32).toNat % 32 = 10 from rfl,
        Nat.shiftLeft_eq]
      omega
    have joined : ((0x10000 : UInt32) + (UInt32.ofNat high - 0xD800) <<< (10 : UInt32) +
        (UInt32.ofNat low - 0xDC00)).toNat = c.toNat := by
      rw [UInt32.toNat_add, UInt32.toNat_add, shifted, bottom,
        show (0x10000 : UInt32).toNat = 0x10000 from rfl]
      omega
    show utf16Text (UInt32.ofNat high :: UInt32.ofNat low :: rest) = _
    rw [utf16Text, if_pos surrogate]
    dsimp only
    rw [utf8Of_eq joined]

theorem utf16Text_encodeUtf16 (chars : List Char) :
    utf16Text ((encodeUtf16 chars).map UInt32.ofNat) = encodeUtf8 chars := by
  induction chars with
  | nil =>
    show utf16Text [] = []
    rw [utf16Text]
  | cons c chars ih =>
    have split : (encodeUtf16 (c :: chars)).map UInt32.ofNat =
        (units c).map UInt32.ofNat ++ (encodeUtf16 chars).map UInt32.ofNat := map_append
    rw [split, utf16Text_units, ih]
    rfl

theorem publicText_utf16 {item : Item} {chars : List Char}
    (utf16 : textBytes "utf16" <:+: item.primaryUti)
    (data : item.primaryData =
      utf16Bytes (textBytes "external" <:+: item.primaryUti) chars) :
    item.publicText = encodeUtf8 chars := by
  have order : containsBytes item.primaryUti (textBytes "external") =
      decide (textBytes "external" <:+: item.primaryUti) :=
    Bool.eq_iff_iff.mpr ((containsBytes_iff _ _).trans decide_eq_true_iff.symm)
  unfold Item.publicText
  rw [if_pos ((containsBytes_iff _ _).mpr utf16), order, data, utf16Units_utf16Bytes,
    utf16Text_encodeUtf16]

/-- The first public text item, if its type names UTF-16, is read in the byte order that its
type names. -/
theorem textFromItems_utf16 (before after : List Item) (item : Item) (chars : List Char)
    (noPlain : ∀ other ∈ before ++ item :: after, other.primaryUti ≠ plainTextUti)
    (first : ∀ other ∈ before, ¬ PublicText other.primaryUti)
    (text : PublicText item.primaryUti) (utf16 : textBytes "utf16" <:+: item.primaryUti)
    (data : item.primaryData =
      utf16Bytes (textBytes "external" <:+: item.primaryUti) chars) :
    textFromItems (before ++ item :: after) = some (encodeUtf8 chars) := by
  have plain : (before ++ item :: after).find? (·.primaryUti = plainTextUti) = none :=
    List.find?_eq_none.mpr fun other mem same => noPlain other mem (of_decide_eq_true same)
  have earlier : before.find? Item.isPublicText = none :=
    List.find?_eq_none.mpr fun other mem same => first other mem ((isPublicText_iff other).mp same)
  have found : (before ++ item :: after).find? Item.isPublicText = some item := by
    rw [List.find?_append, earlier, Option.none_or,
      List.find?_cons_of_pos ((isPublicText_iff item).mpr text)]
  unfold textFromItems
  rw [plain, found]
  dsimp only
  rw [publicText_utf16 utf16 data]

/-- A letter and a character with surrogates, high bytes first, behind an image. -/
theorem textFromItems_utf16_external :
    textFromItems [⟨textBytes "public.png", [1, 2, 3], []⟩,
        ⟨textBytes "public.utf16-external-plain-text", [0, 0x61, 0xD8, 0x3D, 0xDE, 0], []⟩] =
      some [0x61, 0xF0, 0x9F, 0x98, 0x80] :=
  textFromItems_utf16 [⟨textBytes "public.png", [1, 2, 3], []⟩] []
    ⟨textBytes "public.utf16-external-plain-text", [0, 0x61, 0xD8, 0x3D, 0xDE, 0], []⟩ ['a', '😀']
    (by decide) (by decide) (by decide) (by decide) (by decide)

end Scshr.Protocol
