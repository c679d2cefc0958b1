import Scshr.Lib.Sextets
import Scshr.Tunnel.Pairing
import Mathlib.Data.List.GetD
import Mathlib.Data.List.Nodup
import Mathlib.Data.List.TakeWhile

/-! The base64 loops of the pairing code refine the regrouping into six-bit digits,
each written as a character of the alphabet. -/
namespace Scshr.Tunnel

open Common Lib Lib.Sextets List

/-- What both alphabets are: sixty-four different characters, none of them the
terminator or the padding. -/
structure Alphabet (alphabet : Bytes) : Prop where
  size : alphabet.length = 64
  nodup : alphabet.Nodup
  terminator : 0 ∉ alphabet
  padding : equalsSign ∉ alphabet

def sharedAlphabet : Bytes :=
  (List.range' 65 26 ++ List.range' 97 26 ++ List.range' 48 10).map UInt8.ofNat

theorem nodup_sharedAlphabet : sharedAlphabet.Nodup := by decide +kernel

theorem alphabet_of_shared (hc : c ∉ 0 :: equalsSign :: d :: sharedAlphabet)
    (hd : d ∉ 0 :: equalsSign :: sharedAlphabet) : Alphabet (sharedAlphabet ++ [c, d]) where
  size := rfl
  nodup := by
    simp only [mem_cons, not_or] at hc hd
    apply nodup_sharedAlphabet.append
    · simp [hc.2.2.1]
    · intro x hx hx'
      obtain rfl | rfl : x = c ∨ x = d := by simpa using hx'
      · exact hc.2.2.2 hx
      · exact hd.2.2 hx
  terminator := by
    simp only [mem_cons, not_or] at hc hd
    have hshared : 0 ∉ sharedAlphabet := by decide
    simp [hshared, Ne.symm hc.1, Ne.symm hd.1]
  padding := by
    simp only [mem_cons, not_or] at hc hd
    have hshared : equalsSign ∉ sharedAlphabet := by decide
    simp [hshared, Ne.symm hc.2.1, Ne.symm hd.2.1]

theorem urlAlphabet_eq : urlAlphabet = sharedAlphabet ++ [45, 95] := (ascii_ofList _).trans rfl

theorem stdAlphabet_eq : stdAlphabet = sharedAlphabet ++ [43, 47] := (ascii_ofList _).trans rfl

theorem newline_notMem_urlAlphabet : newline ∉ urlAlphabet := by
  rw [urlAlphabet_eq]
  decide

theorem newline_notMem_stdAlphabet : newline ∉ stdAlphabet := by
  rw [stdAlphabet_eq]
  decide

theorem alphabet_url : Alphabet urlAlphabet := by
  rw [urlAlphabet_eq]
  exact alphabet_of_shared (by decide) (by decide)

theorem alphabet_std : Alphabet stdAlphabet := by
  rw [stdAlphabet_eq]
  exact alphabet_of_shared (by decide) (by decide)

def digitChar (alphabet : Bytes) (digit : Sextet) : UInt8 := alphabet.getD digit.val 0

section

variable {alphabet : Bytes} (h : Alphabet alphabet)
include h

theorem Alphabet.digitChar_mem (digit : Sextet) : digitChar alphabet digit ∈ alphabet := by
  have hlt : digit.val < alphabet.length := by
    rw [h.size]
    exact digit.isLt
  rw [digitChar, getD_eq_getElem _ _ hlt]
  exact getElem_mem hlt

theorem Alphabet.index_digitChar (digit : Sextet) :
    alphabetIndex alphabet (digitChar alphabet digit) = some digit.val := by
  have hlt : digit.val < alphabet.length := by
    rw [h.size]
    exact digit.isLt
  have hne : digitChar alphabet digit ≠ 0 :=
    fun hzero => h.terminator (hzero ▸ h.digitChar_mem digit)
  rw [alphabetIndex, if_neg hne, List.idxOf?_eq_some_iff]
  refine ⟨hlt, (getD_eq_getElem _ _ hlt).symm, ?_⟩
  intro other hother heq
  rw [digitChar, getD_eq_getElem _ _ hlt, h.nodup.getElem_inj_iff] at heq
  omega

theorem Alphabet.exists_digit (hindex : alphabetIndex alphabet c = some index) :
    ∃ digit, digitChar alphabet digit = c := by
  unfold alphabetIndex at hindex
  split at hindex
  · cases hindex
  · obtain ⟨hlt, hget, -⟩ := List.idxOf?_eq_some_iff.mp hindex
    refine ⟨⟨index, h.size ▸ hlt⟩, ?_⟩
    rw [digitChar, getD_eq_getElem _ _ hlt, hget]

/-! ## Encoding -/

omit h in
theorem sextetOf_eq (digit : Sextet) (hdigit : v / 2 ^ shift % 64 = digit.val) :
    sextetOf alphabet v shift = digitChar alphabet digit := by
  rw [sextetOf, Nat.shiftRight_eq_div_pow, hdigit, digitChar]

omit h in
theorem b64Encode_eq_map (raw : Bytes) :
    b64Encode alphabet false raw = (ofBytes raw).map (digitChar alphabet) := by
  fun_induction ofBytes raw with
  | case1 a b c rest ih =>
    have ha := a.toNat_lt
    have hb := b.toNat_lt
    have hc := c.toNat_lt
    simp only [b64Encode, ih, map_cons]
    rw [sextetOf_eq (first a) (by simp only [first]; omega),
      sextetOf_eq (second a b) (by simp only [second]; omega),
      sextetOf_eq (third b c) (by simp only [third]; omega),
      sextetOf_eq (fourth c) (by simp only [fourth]; omega)]
  | case2 a b =>
    have ha := a.toNat_lt
    have hb := b.toNat_lt
    simp only [b64Encode, map_cons, map_nil]
    rw [sextetOf_eq (first a) (by simp only [first]; omega),
      sextetOf_eq (second a b) (by simp only [second]; omega),
      sextetOf_eq (third b 0) (by simp only [third, UInt8.toNat_zero]; omega)]
    rfl
  | case3 a =>
    have ha := a.toNat_lt
    simp only [b64Encode, map_cons, map_nil]
    rw [sextetOf_eq (first a) (by simp only [first]; omega),
      sextetOf_eq (second a 0) (by simp only [second, UInt8.toNat_zero]; omega)]
    rfl
  | case4 => rfl

/-! ## Decoding -/

def checkTrailing (result : Bytes × Nat × Nat) : Option Bytes :=
  if result.2.2 ≥ 6 then none
  else if result.2.2 ≠ 0 ∧ result.2.1 % (1 <<< result.2.2) ≠ 0 then none
  else some result.1

def pushByte (byte : UInt8) (result : Bytes × Nat × Nat) : Bytes × Nat × Nat :=
  (byte :: result.1, result.2)

omit h in
theorem checkTrailing_pushByte (byte : UInt8) (result : Bytes × Nat × Nat) :
    checkTrailing (pushByte byte result) = (checkTrailing result).map (byte :: ·) := by
  unfold checkTrailing pushByte
  split
  · rfl
  · split <;> rfl

omit h in
theorem bind_pushByte (byte : UInt8) (result : Option (Bytes × Nat × Nat)) :
    (result.map (pushByte byte)).bind checkTrailing =
      (result.bind checkTrailing).map (byte :: ·) := by
  cases result with
  | none => rfl
  | some result => exact checkTrailing_pushByte byte result

theorem Alphabet.b64Bits_two (w x : Sextet) (acc : Nat) : ∃ next, next % 16 = x.val % 16 ∧
    ∀ rest, b64Bits alphabet (digitChar alphabet w :: digitChar alphabet x :: rest) acc 0 =
      (b64Bits alphabet rest next 4).map (pushByte (high w x)) := by
  let next := ((acc * 64 + w.val) % 4294967296 * 64 + x.val) % 4294967296
  have hbyte : UInt8.ofNat (next >>> 4) = high w x := by
    apply UInt8.toNat_inj.mp
    simp only [high, next, UInt8.toNat_ofNat', Nat.shiftRight_eq_div_pow]
    omega
  refine ⟨next, by omega, ?_⟩
  intro rest
  rw [b64Bits, h.index_digitChar]
  simp only [b64Bits, h.index_digitChar]
  rw [← hbyte]
  rfl

theorem Alphabet.b64Bits_third (y : Sextet) (hacc : acc % 16 = x.val % 16) :
    ∃ next, next % 4 = y.val % 4 ∧
    ∀ rest, b64Bits alphabet (digitChar alphabet y :: rest) acc 4 =
      (b64Bits alphabet rest next 2).map (pushByte (middle x y)) := by
  let next := (acc * 64 + y.val) % 4294967296
  have hbyte : UInt8.ofNat (next >>> 2) = middle x y := by
    apply UInt8.toNat_inj.mp
    simp only [middle, next, UInt8.toNat_ofNat', Nat.shiftRight_eq_div_pow]
    omega
  refine ⟨next, by omega, ?_⟩
  intro rest
  simp only [b64Bits, h.index_digitChar]
  rw [← hbyte]
  rfl

theorem Alphabet.b64Bits_fourth (z : Sextet) (hacc : acc % 4 = y.val % 4) : ∃ next,
    ∀ rest, b64Bits alphabet (digitChar alphabet z :: rest) acc 2 =
      (b64Bits alphabet rest next 0).map (pushByte (low y z)) := by
  let next := (acc * 64 + z.val) % 4294967296
  have hbyte : UInt8.ofNat (next >>> 0) = low y z := by
    apply UInt8.toNat_inj.mp
    simp only [low, next, UInt8.toNat_ofNat', Nat.shiftRight_zero]
    omega
  refine ⟨next, ?_⟩
  intro rest
  simp only [b64Bits, h.index_digitChar]
  rw [← hbyte]
  rfl

theorem Alphabet.b64Bits_map (digits : List Sextet) (acc : Nat) :
    (b64Bits alphabet (digits.map (digitChar alphabet)) acc 0).bind checkTrailing =
      toBytes digits := by
  fun_induction toBytes digits generalizing acc with
  | case1 w x y z rest ih =>
    obtain ⟨two, htwo, hreadTwo⟩ := h.b64Bits_two w x acc
    obtain ⟨third, hthird, hreadThird⟩ := h.b64Bits_third y htwo
    obtain ⟨fourth, hreadFourth⟩ := h.b64Bits_fourth z hthird
    simp only [map_cons, hreadTwo, hreadThird, hreadFourth]
    rw [bind_pushByte, bind_pushByte, bind_pushByte, ih, Option.map_map, Option.map_map]
    rfl
  | case2 w x y hzero =>
    obtain ⟨two, htwo, hreadTwo⟩ := h.b64Bits_two w x acc
    obtain ⟨third, hthird, hreadThird⟩ := h.b64Bits_third y htwo
    simp only [map_cons, map_nil, hreadTwo, hreadThird, bind_pushByte]
    simp [b64Bits, checkTrailing, hthird, hzero]
  | case3 w x y hzero =>
    obtain ⟨two, htwo, hreadTwo⟩ := h.b64Bits_two w x acc
    obtain ⟨third, hthird, hreadThird⟩ := h.b64Bits_third y htwo
    simp only [map_cons, map_nil, hreadTwo, hreadThird, bind_pushByte]
    simp [b64Bits, checkTrailing, hthird, hzero]
  | case4 w x hzero =>
    obtain ⟨two, htwo, hreadTwo⟩ := h.b64Bits_two w x acc
    simp only [map_cons, map_nil, hreadTwo, bind_pushByte]
    simp [b64Bits, checkTrailing, htwo, hzero]
  | case5 w x hzero =>
    obtain ⟨two, htwo, hreadTwo⟩ := h.b64Bits_two w x acc
    simp only [map_cons, map_nil, hreadTwo, bind_pushByte]
    simp [b64Bits, checkTrailing, htwo, hzero]
  | case6 w =>
    simp only [map_cons, map_nil, b64Bits, h.index_digitChar]
    rfl
  | case7 => rfl

theorem Alphabet.b64DecodeBody_map (digits : List Sextet) :
    b64DecodeBody alphabet (digits.map (digitChar alphabet)) = toBytes digits := by
  rw [b64DecodeBody, length_map]
  split
  · case isTrue hmod => exact (toBytes_eq_none hmod).symm
  · rw [← h.b64Bits_map digits 0]
    cases b64Bits alphabet (digits.map (digitChar alphabet)) 0 0 with
    | none => rfl
    | some result => rfl

theorem Alphabet.exists_digits (hread : b64Bits alphabet chars acc bits = some result) :
    ∃ digits : List Sextet, digits.map (digitChar alphabet) = chars := by
  induction chars generalizing acc bits result with
  | nil => exact ⟨[], rfl⟩
  | cons c rest ih =>
    rw [b64Bits] at hread
    split at hread
    · cases hread
    · case h_2 index hindex =>
      obtain ⟨digit, rfl⟩ := h.exists_digit hindex
      have hrest : ∃ digits : List Sextet, digits.map (digitChar alphabet) = rest := by
        dsimp only at hread
        split at hread
        · obtain ⟨later, hlater, -⟩ := Option.map_eq_some_iff.mp hread
          exact ih hlater
        · exact ih hread
      obtain ⟨digits, rfl⟩ := hrest
      exact ⟨digit :: digits, rfl⟩

theorem Alphabet.exists_digits_of_decodeBody (hdecode : b64DecodeBody alphabet body = some raw) :
    ∃ digits : List Sextet, digits.map (digitChar alphabet) = body ∧
      toBytes digits = some raw := by
  have hread : ∃ result, b64Bits alphabet body 0 0 = some result := by
    unfold b64DecodeBody at hdecode
    split at hdecode
    · cases hdecode
    · split at hdecode
      · cases hdecode
      · case h_2 hresult => exact ⟨_, hresult⟩
  obtain ⟨result, hresult⟩ := hread
  obtain ⟨digits, rfl⟩ := h.exists_digits hresult
  exact ⟨digits, rfl, h.b64DecodeBody_map digits ▸ hdecode⟩

end

/-! ## Both directions -/

theorem mem_base64urlEncode (h : c ∈ base64urlEncode raw) : c ∈ urlAlphabet := by
  rw [base64urlEncode, b64Encode_eq_map] at h
  obtain ⟨digit, -, rfl⟩ := mem_map.mp h
  exact alphabet_url.digitChar_mem digit

theorem base64url_decode_encode (raw : Bytes) :
    base64urlDecode (base64urlEncode raw) = some raw := by
  have hpadding : equalsSign ∉ (ofBytes raw).map (digitChar urlAlphabet) := by
    rw [← b64Encode_eq_map]
    exact fun hmem => alphabet_url.padding (mem_base64urlEncode hmem)
  rw [base64urlDecode, base64urlEncode, b64Encode_eq_map, b64Decode, if_neg (by decide),
    if_neg hpadding, alphabet_url.b64DecodeBody_map, toBytes_ofBytes]

theorem base64url_encode_decode (hdecode : base64urlDecode input = some raw) :
    base64urlEncode raw = input := by
  rw [base64urlDecode, b64Decode, if_neg (by decide)] at hdecode
  split at hdecode
  · cases hdecode
  · obtain ⟨digits, rfl, hbytes⟩ := alphabet_url.exists_digits_of_decodeBody hdecode
    rw [base64urlEncode, b64Encode_eq_map, ofBytes_of_toBytes hbytes]

theorem length_base64urlEncode (raw : Bytes) :
    3 * (base64urlEncode raw).length ≤ 4 * raw.length + 2 := by
  rw [base64urlEncode, b64Encode_eq_map, length_map]
  exact length_ofBytes_le raw

theorem mem_stdAlphabet_of_decode (hdecode : b64Decode stdAlphabet true input = some raw) :
    ∀ c ∈ input, c ∈ stdAlphabet ∨ c = equalsSign := by
  intro c hc
  rw [b64Decode, if_pos rfl] at hdecode
  dsimp only at hdecode
  split at hdecode
  · cases hdecode
  · obtain ⟨digits, hbody, -⟩ := alphabet_std.exists_digits_of_decodeBody hdecode
    have hsplit := takeWhile_append_dropWhile (p := (· = equalsSign)) (l := input.reverse)
    rw [← mem_reverse, ← hsplit, mem_append] at hc
    cases hc with
    | inl htaken => exact Or.inr (by simpa using mem_takeWhile_imp htaken)
    | inr hkept =>
      rw [← mem_reverse, ← hbody] at hkept
      obtain ⟨digit, -, rfl⟩ := mem_map.mp hkept
      exact Or.inl (alphabet_std.digitChar_mem digit)

end Scshr.Tunnel
