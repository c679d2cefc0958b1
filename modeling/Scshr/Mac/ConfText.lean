import Scshr.Mac.Checks
import Scshr.Mac.Keys
import Scshr.Tunnel.TunnelAddress

/-! The texts the helper's parser reads: white space around a line, one entry, one
host of the tunnel. -/
namespace Scshr.Mac

open Common Lib Lib.Decimal Tunnel List

/-! ## White space -/

/-- A character that no trimming takes away. -/
def Solid (c : UInt8) : Prop := c < 128 ∧ isSpace c = false

instance (c : UInt8) : Decidable (Solid c) := inferInstanceAs (Decidable (_ ∧ _))

variable {c : UInt8} {text line cidr : Bytes} {addr : Addr4} {host : Nat}

theorem solid_of_isDigit (h : isDigit c) : Solid c := by
  refine ⟨UInt8.lt_iff_toNat_lt.mpr ?_, not_isSpace_of_isDigit h⟩
  exact Nat.lt_of_le_of_lt (isDigit_iff.mp h).2 (by decide)

section

variable {two : UInt8 → UInt8 → Bool} {three : UInt8 → UInt8 → UInt8 → Bool}

theorem trimWith_space (h : isSpace c) (rest : Bytes) :
    trimWith two three (c :: rest) = trimWith two three rest := by
  match rest with
  | [] => simp [trimWith, h]
  | [b] => simp [trimWith, h]
  | b :: d :: rest => rw [trimWith, if_pos h]

theorem trimWith_solid (htwo : ∀ a b, Solid a → two a b = false)
    (hthree : ∀ a b c, Solid a → three a b c = false) (h : Solid c) (rest : Bytes) :
    trimWith two three (c :: rest) = c :: rest := by
  match rest with
  | [] => simp [trimWith, h.2]
  | [b] => simp [trimWith, h.2, htwo c b h]
  | b :: d :: rest => simp [trimWith, h.2, htwo c b h, hthree c b d h]

end

theorem Solid.ne (h : Solid c) (hd : ¬ d < 128) : c ≠ d :=
  fun heq => hd (heq ▸ h.1)

theorem trimStart_solid (h : Solid c) (rest : Bytes) :
    trimWith isSpace2 isSpace3 (c :: rest) = c :: rest := by
  apply trimWith_solid _ _ h
  · intro a b ha
    simp [isSpace2, ha.ne (by decide : ¬ (0xC2 : UInt8) < 128)]
  · intro a b c ha
    simp [isSpace3, ha.ne (by decide : ¬ (0xE1 : UInt8) < 128),
      ha.ne (by decide : ¬ (0xE2 : UInt8) < 128), ha.ne (by decide : ¬ (0xE3 : UInt8) < 128)]

theorem trimEnd_solid (hlast : text.getLast? = some c) (h : Solid c) : trimEnd text = text := by
  rw [trimEnd]
  cases hreverse : text.reverse with
  | nil =>
    rw [reverse_eq_nil_iff.mp hreverse]
    rfl
  | cons d rest =>
    have hd : d = c := by
      rw [← List.head?_reverse, hreverse] at hlast
      exact Option.some_inj.mp hlast
    have hsolid : Solid d := hd ▸ h
    rw [trimWith_solid _ _ hsolid, ← hreverse, reverse_reverse]
    · intro b a hb
      have h85 := hb.ne (by decide : ¬ (0x85 : UInt8) < 128)
      have hA0 := hb.ne (by decide : ¬ (0xA0 : UInt8) < 128)
      simp [isSpace2, h85, hA0]
    · intro c b a hc
      have h80 := hc.ne (by decide : ¬ (0x80 : UInt8) < 128)
      have hA8 := hc.ne (by decide : ¬ (0xA8 : UInt8) < 128)
      have hA9 := hc.ne (by decide : ¬ (0xA9 : UInt8) < 128)
      have hAF := hc.ne (by decide : ¬ (0xAF : UInt8) < 128)
      have h9F := hc.ne (by decide : ¬ (0x9F : UInt8) < 128)
      have hrange : ¬ (0x80 : UInt8) ≤ c := by
        have hc' := hc.1
        rw [UInt8.lt_iff_toNat_lt] at hc'
        rw [UInt8.le_iff_toNat_le]
        exact Nat.not_le_of_lt hc'
      simp [isSpace3, h80, hA8, hA9, hAF, h9F, hrange]

structure Trimmed (text : Bytes) : Prop where
  front : ∃ c, text.head? = some c ∧ Solid c
  back : ∃ c, text.getLast? = some c ∧ Solid c

theorem Trimmed.trimStart (h : Trimmed text) : trimWith isSpace2 isSpace3 text = text := by
  obtain ⟨c, hhead, hc⟩ := h.front
  obtain ⟨rest, rfl⟩ := List.head?_eq_some_iff.mp hhead
  exact trimStart_solid hc rest

theorem Trimmed.trimSpace (h : Trimmed text) : trimSpace text = text := by
  obtain ⟨c, hlast, hc⟩ := h.back
  rw [Mac.trimSpace, h.trimStart]
  exact trimEnd_solid hlast hc

theorem Trimmed.trimSpace_cons (h : Trimmed text) : Mac.trimSpace (32 :: text) = text := by
  obtain ⟨c, hlast, hc⟩ := h.back
  rw [Mac.trimSpace, trimWith_space rfl, h.trimStart]
  exact trimEnd_solid hlast hc

theorem Trimmed.confLine (h : Trimmed line) (hhash : hash ∉ line) : confLine line = line := by
  obtain ⟨c, hlast, hc⟩ := h.back
  have hreturn : trimSuffixReturn line = line := by
    have hne : line.getLast? ≠ some carriageReturn := by
      rw [hlast]
      intro heq
      cases heq
      exact absurd hc.2 (by decide)
    rw [trimSuffixReturn, if_neg hne]
  rw [Mac.confLine]
  simp only [hreturn, h.trimSpace, if_neg hhash]

/-! ## Entries -/

theorem cutEquals_append (h : equalsSign ∉ name) :
    cutEquals (name ++ equalsSign :: value) = some (name, value) := by
  have hname : ∀ c ∈ name, decide (c ≠ equalsSign) = true := by
    intro c hc
    rw [decide_eq_true_iff]
    rintro rfl
    exact h hc
  rw [cutEquals, if_pos (by simp), takeWhile_append_of_pos hname,
    dropWhile_append_of_pos hname]
  simp

theorem equalsSign_mem_of_confEntry (h : confEntry lowerRunes line = some entry) :
    equalsSign ∈ line := by
  rw [confEntry, Option.map_eq_some_iff] at h
  obtain ⟨parts, hparts, -⟩ := h
  unfold cutEquals at hparts
  split at hparts
  · assumption
  · cases hparts

/-! ## Hosts -/

theorem octetValue_eq_some_iff {field : Bytes} {value : UInt8} :
    octetValue field = some value ↔ field = write value.toNat := by
  constructor
  · intro h
    unfold octetValue at h
    split at h
    · cases h
    · case isFalse hgood =>
      simp only [not_or, not_not, Bool.not_eq_true', Bool.not_eq_false, Nat.not_lt] at hgood
      obtain ⟨hne, hdigits, hstrip, hbyte⟩ := hgood
      cases h
      rw [UInt8.toNat_ofNat', Nat.mod_eq_of_lt (Nat.lt_succ_of_le hbyte),
        write_read hne hdigits, hstrip]
  · rintro rfl
    have hlt := value.toNat_lt
    rw [octetValue, if_neg]
    · rw [read_write, UInt8.ofNat_toNat]
    · simp only [not_or, not_not, Bool.not_eq_true', Bool.not_eq_false, read_write]
      exact ⟨write_ne_nil _, write_all _, strip_write _, by omega⟩

theorem parseAddr4_eq_some_iff {s : Bytes} : parseAddr4 s = some addr ↔ s = addr.text := by
  have hdots : ∀ n : Nat, dot ∉ write n := by
    intro n hmem
    exact absurd (all_eq_true.mp (write_all n) dot hmem) (by decide)
  have htext : addr.text = [dot].intercalate
      [write addr.a.toNat, write addr.b.toNat, write addr.c.toNat, write addr.d.toNat] := by
    simp [Addr4.text, List.intercalate, List.intersperse]
  constructor
  · intro h
    unfold parseAddr4 at h
    split at h
    · case h_1 a b c d hfields =>
      cases h
      have hlength := congrArg List.length hfields
      rw [length_map] at hlength
      have hjoin : [dot].intercalate (s.splitOn dot) = s := intercalate_splitOn dot
      match hsplit : s.splitOn dot, hlength with
      | [e, f, g, k], _ =>
        rw [hsplit] at hfields hjoin
        simp only [map_cons, map_nil, List.cons.injEq, octetValue_eq_some_iff,
          and_true] at hfields
        obtain ⟨rfl, rfl, rfl, rfl⟩ := hfields
        rw [htext]
        exact hjoin.symm
    · cases h
  · rintro rfl
    have hsplit : addr.text.splitOn dot =
        [write addr.a.toNat, write addr.b.toNat, write addr.c.toNat, write addr.d.toNat] := by
      rw [htext]
      apply splitOn_intercalate
      · simp only [forall_mem_cons]
        exact ⟨hdots _, hdots _, hdots _, hdots _, by simp⟩
      · simp
    have hoctet : ∀ value : UInt8, octetValue (write value.toNat) = some value :=
      fun value => octetValue_eq_some_iff.mpr rfl
    rw [parseAddr4, hsplit]
    simp only [map_cons, map_nil, hoctet]

theorem prefixBits_full_iff : prefixBits 32 bits = some 32 ↔ bits = ascii "32" := by
  constructor
  · intro h
    unfold prefixBits at h
    split at h
    · cases h
    · case isFalse hfirst =>
      split at h
      · cases h
      · case isFalse hgood =>
        simp only [not_or, Bool.not_eq_true', Bool.not_eq_false] at hgood
        have hvalue : read bits = 32 := Option.some_inj.mp h
        have hstrip : strip bits = bits := by
          rw [strip_eq_self_iff]
          rintro ⟨hlong, hzero⟩
          exact hfirst ⟨hlong, by simp [hzero]⟩
        rw [← hstrip, ← write_read hgood.1 hgood.2.1, hvalue]
        rfl
  · rintro rfl
    decide +kernel

def tunnelHost (host : Nat) : Addr4 := ⟨10, 77, 77, UInt8.ofNat host⟩

theorem tunnelHost_text (h : host ≤ 255) : (tunnelHost host).text = hostSpelling host := by
  have hbyte : (UInt8.ofNat host).toNat = host := by
    rw [UInt8.toNat_ofNat', Nat.mod_eq_of_lt (Nat.lt_succ_of_le h)]
  simp only [Addr4.text, tunnelHost, hbyte, hostSpelling]
  rfl

theorem tunnelHost_inj (h : host ≤ 255) (hother : other ≤ 255) :
    tunnelHost host = tunnelHost other ↔ host = other := by
  constructor
  · intro heq
    have hbyte := congrArg (fun addr => addr.d.toNat) heq
    simp only [tunnelHost, UInt8.toNat_ofNat'] at hbyte
    omega
  · rintro rfl
    rfl

theorem splitOn_slash {addr : Bytes} (h : slash ∉ addr) :
    (addr ++ ascii "/32").splitOn slash = [addr, ascii "32"] := by
  have htext : addr ++ ascii "/32" = [slash].intercalate [addr, ascii "32"] := by
    simp [List.intercalate, List.intersperse]
    rfl
  rw [htext]
  apply splitOn_intercalate
  · simp only [forall_mem_cons]
    exact ⟨h, by decide, by simp⟩
  · simp

theorem notMem_text {c : UInt8} (hdigit : ¬ isDigit c = true) (hdot : c ≠ dot) (addr : Addr4) :
    c ∉ addr.text := by
  have hwrite : ∀ n : Nat, c ∉ write n :=
    fun n hmem => hdigit (all_eq_true.mp (write_all n) c hmem)
  simp [Addr4.text, hwrite, hdot]

theorem parsePrefix4_full_iff :
    parsePrefix4 cidr = some (addr, 32) ↔ cidr = addr.text ++ ascii "/32" := by
  constructor
  · intro h
    unfold parsePrefix4 at h
    split at h
    · case h_1 left right hsplit =>
      split at h
      · case h_1 a n haddr hbits =>
        cases h
        have hjoin : [slash].intercalate (cidr.splitOn slash) = cidr :=
          intercalate_splitOn slash
        rw [hsplit, parseAddr4_eq_some_iff.mp haddr, prefixBits_full_iff.mp hbits] at hjoin
        rw [← hjoin]
        simp [List.intercalate, List.intersperse]
        rfl
      · cases h
    · cases h
  · rintro rfl
    have haddr : parseAddr4 addr.text = some addr := parseAddr4_eq_some_iff.mpr rfl
    have hbits : prefixBits 32 (ascii "32") = some 32 := prefixBits_full_iff.mpr rfl
    rw [parsePrefix4, splitOn_slash (notMem_text (by decide) (by decide) addr)]
    simp only [haddr, hbits]

/-! An IPv6 prefix is told from a text that is no prefix at all: its first group ends at a
colon. -/

theorem colon_mem_of_isGroups6 {s : Bytes} (h : isGroups6 8 false s = true) : colon ∈ s := by
  rw [isGroups6] at h
  split at h
  · cases h
  · split at h
    · cases h
    · case h_2 c rest htail =>
      have hmem : c ∈ s := by
        apply (dropWhile_suffix isXDigit).mem
        rw [htail]
        exact mem_cons_self
      split at h
      · exact absurd (Bool.and_eq_true_iff.mp h).2 (by decide)
      · split at h
        · cases h
        · case isFalse hcolon =>
          rwa [not_not.mp hcolon] at hmem

theorem colon_mem_of_isAddr6 {s : Bytes} (h : isAddr6 s = true) : colon ∈ s := by
  unfold isAddr6 at h
  split at h
  · case isTrue hgap =>
    apply mem_of_mem_take (i := 2)
    rw [hgap]
    exact mem_cons_self
  · exact colon_mem_of_isGroups6 h

theorem hostInTunnel_notIpv4_iff :
    hostInTunnel cidr = .error .notIpv4 ↔ isPrefix6 cidr = true := by
  have hparse (h : isPrefix6 cidr = true) : parsePrefix4 cidr = none := by
    unfold isPrefix6 at h
    split at h
    · case h_1 addr bits hsplit =>
      have hcolon := colon_mem_of_isAddr6 (Bool.and_eq_true_iff.mp h).1
      have haddr : parseAddr4 addr = none := by
        rw [Option.eq_none_iff_forall_ne_some]
        intro a hsome
        rw [parseAddr4_eq_some_iff.mp hsome] at hcolon
        exact notMem_text (by decide) (by decide) a hcolon
      rw [parsePrefix4, hsplit]
      simp only [haddr]
    · cases h
  unfold hostInTunnel
  constructor
  · intro h
    split at h
    · split at h
      · assumption
      · cases h
    · split_ifs at h <;> cases h
  · intro h
    rw [hparse h]
    dsimp only
    rw [if_pos h]

example : hostInTunnel (ascii "::ffff:10.77.77.2/128") = .error .notIpv4 ∧
    hostInTunnel (ascii "10.77.77:2/32") = .error .notPrefix := by decide +kernel

theorem hostInTunnel_ok_iff :
    hostInTunnel cidr = .ok addr ↔ ∃ host, 1 ≤ host ∧ host ≤ 254 ∧ addr = tunnelHost host ∧
      cidr = hostSpelling host ++ ascii "/32" := by
  constructor
  · intro h
    unfold hostInTunnel at h
    split at h
    · cases h
    · case h_2 a bits hparse =>
      split at h
      · cases h
      · case isFalse hbits =>
        split at h
        · cases h
        · case isFalse hsubnet =>
          split at h
          · cases h
          · case isFalse hhost =>
            cases h
            rw [not_not.mp hbits] at hparse
            simp only [ne_eq, Prod.mk.injEq, not_not] at hsubnet
            rw [not_or] at hhost
            have haddr : addr = tunnelHost addr.d.toNat := by
              obtain ⟨a, b, c, d⟩ := addr
              obtain ⟨rfl, rfl, rfl⟩ := hsubnet
              rw [tunnelHost, UInt8.ofNat_toNat]
            have hlow : addr.d.toNat ≠ 0 := fun hzero => hhost.1 (UInt8.toNat_inj.mp hzero)
            have hhigh : addr.d.toNat ≠ 255 := fun hlast => hhost.2 (UInt8.toNat_inj.mp hlast)
            have hlt := addr.d.toNat_lt
            refine ⟨addr.d.toNat, by omega, by omega, haddr, ?_⟩
            rw [parsePrefix4_full_iff.mp hparse, ← tunnelHost_text (by omega), ← haddr]
  · rintro ⟨host, hlow, hhigh, rfl, rfl⟩
    have hbyte : (UInt8.ofNat host).toNat = host := by
      rw [UInt8.toNat_ofNat', Nat.mod_eq_of_lt (by omega)]
    have hzero : UInt8.ofNat host ≠ 0 := by
      intro heq
      rw [heq] at hbyte
      exact absurd hbyte.symm (Nat.ne_of_gt hlow)
    have hlast : UInt8.ofNat host ≠ 255 := by
      intro heq
      rw [heq] at hbyte
      have h255 : (255 : UInt8).toNat = 255 := rfl
      omega
    rw [← tunnelHost_text (by omega), hostInTunnel, parsePrefix4_full_iff.mpr rfl]
    simp [tunnelHost, hzero, hlast]

end Scshr.Mac
