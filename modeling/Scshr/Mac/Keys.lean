import Scshr.Mac.Shell
import Scshr.Tunnel.Base64

/-! The three checks of a WireGuard key: `valid_wg_key` of the Windows side and
`decodeKey` of the helper accept exactly the canonical spellings, the script's
`is_wg_key` more. -/
namespace Scshr.Mac

open Common Lib Lib.Sextets Tunnel List

def CanonicalKey (key : Bytes) : Prop :=
  ∃ raw : Bytes, raw.length = 32 ∧ key = b64Encode stdAlphabet true raw

/-! ## Padding -/

variable {raw key : Bytes}

theorem b64Encode_pad (alphabet raw : Bytes) :
    b64Encode alphabet true raw =
      b64Encode alphabet false raw ++ List.replicate ((3 - raw.length % 3) % 3) equalsSign := by
  fun_induction b64Encode alphabet false raw with
  | case1 a b c rest v ih =>
    have hmod : (a :: b :: c :: rest).length % 3 = rest.length % 3 := by
      simp only [length_cons]
      omega
    rw [b64Encode, ih, hmod]
    rfl
  | case2 a b v => rfl
  | case3 a v => rfl
  | case4 => rfl

theorem dropPadding_append (h : equalsSign ∉ body) (count : Nat) :
    ((body ++ List.replicate count equalsSign).reverse.dropWhile (· = equalsSign)).reverse =
      body := by
  have hbody : ∀ c ∈ body.reverse.head?, c ≠ equalsSign := by
    intro c hc heq
    exact h (heq ▸ mem_reverse.mp (mem_of_mem_head? hc))
  rw [reverse_append, reverse_replicate, dropWhile_append_of_pos (by simp)]
  cases hreverse : body.reverse with
  | nil => simpa using (reverse_eq_nil_iff.mp hreverse).symm
  | cons c rest =>
    have hc := hbody c (by simp [hreverse])
    rw [dropWhile_cons_of_neg (by simpa using hc), ← hreverse, reverse_reverse]

theorem exists_padding (input : Bytes) :
    ∃ count, input = (input.reverse.dropWhile (· = equalsSign)).reverse ++
      List.replicate count equalsSign := by
  have hsplit := takeWhile_append_dropWhile (p := (· = equalsSign)) (l := input.reverse)
  have htaken : ∀ c ∈ input.reverse.takeWhile (· = equalsSign), c = equalsSign := by
    intro c hc
    simpa using mem_takeWhile_imp hc
  rw [eq_replicate_of_mem htaken] at hsplit
  refine ⟨(input.reverse.takeWhile (· = equalsSign)).length, ?_⟩
  calc input = input.reverse.reverse := (reverse_reverse input).symm
    _ = _ := by rw [← hsplit, reverse_append, reverse_replicate, hsplit]

theorem equalsSign_notMem_digits (digits : List Sextet) :
    equalsSign ∉ digits.map (digitChar stdAlphabet) := by
  intro hmem
  obtain ⟨digit, -, hdigit⟩ := mem_map.mp hmem
  exact alphabet_std.padding (hdigit ▸ alphabet_std.digitChar_mem digit)

theorem b64Encode_key (h : raw.length = 32) :
    b64Encode stdAlphabet true raw =
      (ofBytes raw).map (digitChar stdAlphabet) ++ [equalsSign] := by
  rw [b64Encode_pad, b64Encode_eq_map, h]
  rfl

theorem length_ofBytes_key (h : raw.length = 32) : (ofBytes raw).length = 43 := by
  rw [length_ofBytes, h]

theorem CanonicalKey.length (h : CanonicalKey key) : key.length = 44 := by
  obtain ⟨raw, hraw, rfl⟩ := h
  rw [b64Encode_key hraw, length_append, length_map, length_ofBytes_key hraw]
  rfl

theorem CanonicalKey.mem (h : CanonicalKey key) : ∀ c ∈ key, c ∈ stdAlphabet ∨ c = equalsSign := by
  intro c hc
  obtain ⟨raw, hraw, rfl⟩ := h
  rw [b64Encode_key hraw, mem_append, mem_singleton] at hc
  rcases hc with hc | hc
  · obtain ⟨digit, -, rfl⟩ := mem_map.mp hc
    exact .inl (alphabet_std.digitChar_mem digit)
  · exact .inr hc

theorem CanonicalKey.newline_notMem (h : CanonicalKey key) : newline ∉ key := by
  intro hmem
  rcases h.mem newline hmem with hmem | heq
  · exact newline_notMem_stdAlphabet hmem
  · exact absurd heq (by decide)

theorem canonicalKey_iff_digits :
    CanonicalKey key ↔ ∃ digits : List Sextet, digits.length = 43 ∧
      (∀ y ∈ digits.getLast?, y.val % 4 = 0) ∧
      key = digits.map (digitChar stdAlphabet) ++ [equalsSign] := by
  constructor
  · rintro ⟨raw, hraw, rfl⟩
    have hlength := length_ofBytes_key hraw
    refine ⟨ofBytes raw, hlength, ?_, b64Encode_key hraw⟩
    exact (exists_toBytes_iff (by rw [hlength])).mp ⟨raw, toBytes_ofBytes raw⟩
  · rintro ⟨digits, hlength, hlast, rfl⟩
    obtain ⟨raw, hraw⟩ := (exists_toBytes_iff (by rw [hlength])).mpr hlast
    have hdigits := ofBytes_of_toBytes hraw
    have hlen : raw.length = 32 := by
      have hcount := length_ofBytes raw
      rw [hdigits, hlength] at hcount
      omega
    exact ⟨raw, hlen, by rw [b64Encode_key hlen, hdigits]⟩

/-! ## The helper -/

theorem stdDecodeString_key (h : raw.length = 32) :
    stdDecodeString (b64Encode stdAlphabet true raw) = some raw := by
  have hlength := length_ofBytes_key h
  have hlines : ∀ c ∈ b64Encode stdAlphabet true raw,
      (c ≠ newline && c ≠ carriageReturn) = true := by
    intro c hc
    rcases CanonicalKey.mem ⟨raw, h, rfl⟩ c hc with hc | rfl
    · have hreturn : carriageReturn ∉ stdAlphabet := by
        rw [stdAlphabet_eq]
        decide
      have hne : c ≠ newline ∧ c ≠ carriageReturn :=
        ⟨fun heq => newline_notMem_stdAlphabet (heq ▸ hc), fun heq => hreturn (heq ▸ hc)⟩
      simpa using hne
    · rfl
  have hbody := dropPadding_append (equalsSign_notMem_digits (ofBytes raw)) 1
  rw [stdDecodeString, filter_eq_self.mpr hlines]
  simp only [b64Encode_key h]
  rw [replicate_one] at hbody
  rw [hbody]
  simp only [length_append, length_map, hlength, length_singleton]
  rw [if_neg (by decide)]
  have hbits := alphabet_std.b64Bits_map (ofBytes raw) 0
  rw [toBytes_ofBytes] at hbits
  obtain ⟨result, hresult, hcheck⟩ := Option.bind_eq_some_iff.mp hbits
  rw [hresult, Option.map_some]
  unfold checkTrailing at hcheck
  split at hcheck
  · cases hcheck
  · split at hcheck
    · cases hcheck
    · exact hcheck

theorem decodeKey_ok_iff :
    decodeKey key = .ok raw ↔ raw.length = 32 ∧ key = b64Encode stdAlphabet true raw := by
  constructor
  · intro h
    unfold decodeKey at h
    split at h
    · cases h
    · split at h
      · cases h
      · split at h
        · cases h
        · split at h
          · cases h
          · case isFalse hlength hencode =>
            cases h
            exact ⟨not_not.mp hlength, (not_not.mp hencode).symm⟩
  · rintro ⟨hlength, rfl⟩
    have hkey : CanonicalKey (b64Encode stdAlphabet true raw) := ⟨raw, hlength, rfl⟩
    have hlast : (b64Encode stdAlphabet true raw).getLast? = some equalsSign := by
      rw [b64Encode_key hlength, List.getLast?_append]
      rfl
    rw [decodeKey, if_neg (by simp [hkey.length, hlast]), stdDecodeString_key hlength]
    simp [hlength]

theorem decodeKey_ok_of_canonical (h : CanonicalKey key) : ∃ raw, decodeKey key = .ok raw := by
  obtain ⟨raw, hraw⟩ := h
  exact ⟨raw, decodeKey_ok_iff.mpr hraw⟩

theorem canonicalKey_of_decodeKey (h : decodeKey key = .ok raw) :
    CanonicalKey key :=
  ⟨raw, decodeKey_ok_iff.mp h⟩

/-! ## The Windows side -/

theorem validWgKey_iff : validWgKey key ↔ CanonicalKey key := by
  rw [canonicalKey_iff_digits]
  constructor
  · intro h
    unfold validWgKey at h
    split at h
    · cases h
    · case isFalse hshape =>
      simp only [not_or, not_not] at hshape
      split at h
      · cases h
      · case h_2 raw hdecode =>
        rw [b64Decode, if_pos rfl] at hdecode
        dsimp only at hdecode
        split at hdecode
        · cases hdecode
        · obtain ⟨digits, hbody, hbytes⟩ := alphabet_std.exists_digits_of_decodeBody hdecode
          obtain ⟨count, hpadding⟩ := exists_padding key
          have hdigits := ofBytes_of_toBytes hbytes
          have hraw : raw.length = 32 := by simpa using h
          have hlength : digits.length = 43 := by rw [← hdigits, length_ofBytes_key hraw]
          rw [← hbody] at hpadding
          have hcount : count = 1 := by
            have htotal := congrArg List.length hpadding
            rw [length_append, length_map, length_replicate, hlength,
              hshape.1] at htotal
            omega
          rw [hcount] at hpadding
          refine ⟨digits, hlength, ?_, hpadding⟩
          exact (exists_toBytes_iff (by rw [hlength])).mp ⟨raw, hbytes⟩
  · rintro ⟨digits, hlength, hlast, rfl⟩
    obtain ⟨raw, hraw⟩ := (exists_toBytes_iff (by rw [hlength])).mpr hlast
    have hbody := dropPadding_append (equalsSign_notMem_digits digits) 1
    have hlen : raw.length = 32 := by
      have hcount := length_ofBytes raw
      rw [ofBytes_of_toBytes hraw, hlength] at hcount
      omega
    have hdecode : b64Decode stdAlphabet true
        (digits.map (digitChar stdAlphabet) ++ [equalsSign]) = some raw := by
      rw [replicate_one] at hbody
      rw [b64Decode, if_pos rfl]
      dsimp only
      rw [hbody, if_neg (by simp [hlength]), alphabet_std.b64DecodeBody_map, hraw]
    have hpenultimate : (digits.map (digitChar stdAlphabet) ++ [equalsSign]).getD 42 0 ≠
        equalsSign := by
      intro heq
      have hlt : 42 < (digits.map (digitChar stdAlphabet)).length := by
        rw [length_map, hlength]
        decide
      rw [getD_append _ _ _ _ hlt, getD_eq_getElem _ _ hlt] at heq
      exact equalsSign_notMem_digits digits (heq ▸ getElem_mem hlt)
    rw [validWgKey, if_neg, hdecode]
    · simpa using hlen
    · simp only [not_or, not_not]
      refine ⟨by simp [hlength], ?_, hpenultimate⟩
      rw [getD_append_right _ _ _ _ (by simp [hlength])]
      simp [hlength]

/-! ## One spelling -/

/-- Padded standard base64: the digits of the bytes, filled up to whole groups. -/
def paddedBase64 (raw : Bytes) : Bytes :=
  (ofBytes raw).map (digitChar stdAlphabet) ++
    List.replicate ((3 - raw.length % 3) % 3) equalsSign

theorem canonicalKey_iff_paddedBase64 :
    CanonicalKey key ↔ ∃ raw : Bytes, raw.length = 32 ∧ key = paddedBase64 raw := by
  unfold CanonicalKey paddedBase64
  simp only [b64Encode_pad, b64Encode_eq_map]

/-- Both sides take the padded standard base64 of 32 bytes for a key and nothing else, and a
base64url text decodes to the bytes that it is the encoding of. -/
theorem key_spelling (s : Bytes) :
    (validWgKey s = true ↔ ∃ raw, decodeKey s = .ok raw) ∧
      ((∃ raw, decodeKey s = .ok raw) ↔
        ∃ raw : Bytes, raw.length = 32 ∧ s = paddedBase64 raw) ∧
      ∀ r, base64urlDecode s = some r ↔ base64urlEncode r = s := by
  have helper : (∃ raw, decodeKey s = .ok raw) ↔ CanonicalKey s :=
    ⟨fun ⟨_, decoded⟩ => canonicalKey_of_decodeKey decoded, decodeKey_ok_of_canonical⟩
  refine ⟨validWgKey_iff.trans helper.symm, helper.trans canonicalKey_iff_paddedBase64, ?_⟩
  intro r
  constructor
  · exact base64url_encode_decode
  · rintro rfl
    exact base64url_decode_encode r

end Scshr.Mac
