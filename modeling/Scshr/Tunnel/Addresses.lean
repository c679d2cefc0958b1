import Scshr.Tunnel.Pairing
import Mathlib.Data.List.TakeWhile

/-! What `parse_ipv4` accepts, which of it is a tunnel address, and that the route to
a tunnel address is always allowed. -/
namespace Scshr.Tunnel

open Common Lib Lib.Decimal
open List hiding count

section

variable {α β : Type}

theorem check_ok_iff {ε : Type} {failed : Prop} [Decidable failed] {why : ε}
    {next : Except ε α} {result : α} :
    (if failed then .error why else next) = .ok result ↔ ¬ failed ∧ next = .ok result := by
  by_cases hfailed : failed
  · simp [hfailed]
  · simp [hfailed]

theorem bind_ok_iff {first : Except String α} {next : α → Except String β} {result : β} :
    first.bind next = .ok result ↔ ∃ value, first = .ok value ∧ next value = .ok result := by
  cases first with
  | error text => simp [Except.bind]
  | ok value => simp [Except.bind]

end

variable {rest octet s ip : Bytes} {v : UInt32} {digits n value : Nat} {octets : List Bytes}

theorem takeWhile_until (h : stop ∉ text) (hrest : ∀ c ∈ rest.head?, c = stop) :
    (text ++ rest).takeWhile (· ≠ stop) = text := by
  have htext : ∀ c ∈ text, decide (c ≠ stop) = true := by
    intro c hc
    rw [decide_eq_true_iff]
    rintro rfl
    exact h hc
  rw [takeWhile_append_of_pos htext]
  cases rest with
  | nil => exact append_nil text
  | cons c tail =>
    cases hrest c rfl
    simp

theorem exists_until (stop : UInt8) (body : Bytes) :
    ∃ text rest, stop ∉ text ∧ (∀ c ∈ rest.head?, c = stop) ∧ body = text ++ rest := by
  induction body with
  | nil => exact ⟨[], [], by simp, by simp, rfl⟩
  | cons c tail ih =>
    by_cases hc : c = stop
    · exact ⟨[], c :: tail, by simp, by simpa using hc, rfl⟩
    · obtain ⟨text, rest, htext, hrest, rfl⟩ := ih
      exact ⟨c :: text, rest, by simp [htext, Ne.symm hc], hrest, rfl⟩

/-! ## The grammar of an address -/

structure Octet (text : Bytes) : Prop where
  digits : text.all isDigit
  nonempty : text ≠ []
  short : text.length ≤ 3
  byte : read text ≤ 255
  zeros : ¬ (1 < text.length ∧ read text < 10)

def dotted (octets : List Bytes) : Bytes := [dot].intercalate octets

def number (octets : List Bytes) (v : Nat) : Nat :=
  octets.foldl (fun v octet => v * 256 + read octet) v

theorem dotted_cons_cons (octet next : Bytes) (rest : List Bytes) :
    dotted (octet :: next :: rest) = octet ++ dot :: dotted (next :: rest) := by
  rw [dotted, intercalate_cons_cons, append_assoc]
  rfl

theorem dotted_singleton (octet : Bytes) : dotted [octet] = octet :=
  intercalate_singleton

theorem dotted_ne_nil (h : octet ≠ []) (rest : List Bytes) : dotted (octet :: rest) ≠ [] := by
  cases rest with
  | nil => rwa [dotted_singleton]
  | cons next later => simp [dotted_cons_cons]

theorem number_cons (octet : Bytes) (rest : List Bytes) (v : Nat) :
    number (octet :: rest) v = number rest (v * 256 + read octet) :=
  foldl_cons ..

theorem not_isDigit_dot : isDigit dot = false := rfl

theorem digitRun_some (hdigits : digits ≤ 3) (h : digitRun s digits n = some (count, value, rest)) :
    ∃ run, s = run ++ rest ∧ run.all isDigit ∧ count = digits + run.length ∧ count ≤ 3 ∧
      value = run.foldl push n := by
  fun_induction digitRun s digits n with
  | case1 c tail digits n hc hmany => cases h
  | case2 c tail digits n hc hmany ih =>
    obtain ⟨run, rfl, hall, hcount, hle, hvalue⟩ := ih (by omega) h
    refine ⟨c :: run, rfl, ?_, ?_, hle, hvalue⟩
    · simp [hc, hall]
    · rw [length_cons]
      omega
  | case3 c tail digits n hc =>
    cases h
    exact ⟨[], rfl, rfl, rfl, hdigits, rfl⟩
  | case4 digits n =>
    cases h
    exact ⟨[], rfl, rfl, rfl, hdigits, rfl⟩

theorem digitRun_append (hall : run.all isDigit) (hle : digits + run.length ≤ 3)
    (hrest : ∀ c ∈ rest.head?, isDigit c = false) :
    digitRun (run ++ rest) digits n =
      some (digits + run.length, run.foldl push n, rest) := by
  induction run generalizing digits n with
  | nil =>
    cases rest with
    | nil => rfl
    | cons c tail =>
      have hc : isDigit c = false := hrest c rfl
      simp [digitRun, hc]
  | cons c tail ih =>
    simp only [all_cons, Bool.and_eq_true] at hall
    rw [length_cons] at hle
    rw [cons_append, digitRun, if_pos hall.1, if_neg (by omega), ih hall.2 (by omega)]
    simp only [length_cons, foldl_cons, Option.some.injEq, Prod.mk.injEq, and_true]
    omega

theorem parseOctet_some (h : parseOctet s = some (n, rest)) :
    ∃ octet, Octet octet ∧ s = octet ++ rest ∧ n = read octet := by
  unfold parseOctet at h
  split at h
  · cases h
  · case h_2 hrun =>
    split at h
    · cases h
    · case isFalse hchecks =>
      obtain ⟨rfl, rfl⟩ := Prod.mk.inj (Option.some_inj.mp h)
      obtain ⟨run, hs, hall, hcount, hle, hvalue⟩ := digitRun_some (Nat.zero_le 3) hrun
      have hread : read run = _ := hvalue.symm
      rw [not_or, not_or] at hchecks
      refine ⟨run, ⟨hall, ?_, by omega, by omega, by omega⟩, hs, hvalue⟩
      apply ne_nil_of_length_pos
      omega

theorem parseOctet_append (h : Octet octet) (hrest : ∀ c ∈ rest.head?, isDigit c = false) :
    parseOctet (octet ++ rest) = some (read octet, rest) := by
  have hshort := h.short
  have hbyte := h.byte
  have hzeros := h.zeros
  have hpos := length_pos_of_ne_nil h.nonempty
  rw [parseOctet, digitRun_append h.digits (by omega) hrest]
  have hchecks : ¬ (0 + octet.length = 0 ∨ 0 + octet.length > 1 ∧ read octet < 10 ∨
      read octet > 255) := by
    omega
  exact if_neg hchecks

theorem parseOctets_some {left : Nat} {v : Nat} (h : parseOctets left s v = some value) :
    ∃ octets, octets.length = left ∧ (∀ octet ∈ octets, Octet octet) ∧ s = dotted octets ∧
      value = number octets v := by
  fun_induction parseOctets left s v with
  | case1 s v => cases h
  | case2 left s v hnone => cases h
  | case3 s v n hone =>
    obtain ⟨octet, hoctet, rfl, rfl⟩ := parseOctet_some hone
    refine ⟨[octet], rfl, by simpa using hoctet, ?_, ?_⟩
    · rw [dotted_singleton, append_nil]
    · rw [number_cons, ← Option.some_inj.mp h]
      rfl
  | case4 left s v n hone hmore => cases h
  | case5 left s v n c rest hone hbad => cases h
  | case6 left s v n c rest hone hgood ih =>
    obtain ⟨octet, hoctet, rfl, rfl⟩ := parseOctet_some hone
    obtain ⟨octets, hlength, hoctets, rfl, hnumber⟩ := ih h
    have hdot : c = dot := by
      by_contra hother
      exact hgood (Or.inl hother)
    have hne : octets ≠ [] := by
      rintro rfl
      exact hgood (Or.inr rfl)
    obtain ⟨next, later, rfl⟩ := exists_cons_of_ne_nil hne
    refine ⟨octet :: next :: later, by rw [length_cons, hlength], ?_, ?_, ?_⟩
    · exact forall_mem_cons.mpr ⟨hoctet, hoctets⟩
    · rw [dotted_cons_cons, hdot]
    · rw [number_cons, hnumber]

theorem parseOctets_dotted (hne : octets ≠ []) (hoctets : ∀ octet ∈ octets, Octet octet) (v : Nat) :
    parseOctets octets.length (dotted octets) v = some (number octets v) := by
  induction octets generalizing v with
  | nil => exact absurd rfl hne
  | cons octet rest ih =>
    rw [forall_mem_cons] at hoctets
    cases rest with
    | nil =>
      have hread := @parseOctet_append [] octet hoctets.1 (by simp)
      rw [append_nil] at hread
      simp [dotted_singleton, parseOctets, hread, number]
    | cons next later =>
      have hread := @parseOctet_append (dot :: dotted (next :: later)) octet hoctets.1
        (by simp [not_isDigit_dot])
      have hrest := ih (cons_ne_nil next later) hoctets.2 (v * 256 + read octet)
      have hgood : ¬ (dot ≠ dot ∨ dotted (next :: later) = []) := by
        simp [dotted_ne_nil (hoctets.2 next mem_cons_self).nonempty later]
      rw [dotted_cons_cons, length_cons, parseOctets, hread]
      dsimp only
      rw [if_neg hgood, hrest, number_cons octet]

structure Quad (s : Bytes) (octets : List Bytes) : Prop where
  four : octets.length = 4
  octet : ∀ octet ∈ octets, Octet octet
  text : s = dotted octets

theorem number_lt (h : ∀ octet ∈ octets, Octet octet) (v : Nat) :
    number octets v < (v + 1) * 256 ^ octets.length := by
  induction octets generalizing v with
  | nil => simp [number]
  | cons octet rest ih =>
    rw [forall_mem_cons] at h
    have hbyte := h.1.byte
    calc number (octet :: rest) v
        = number rest (v * 256 + read octet) := number_cons octet rest v
      _ < (v * 256 + read octet + 1) * 256 ^ rest.length := ih h.2 _
      _ ≤ (v + 1) * 256 * 256 ^ rest.length := Nat.mul_le_mul_right _ (by omega)
      _ = (v + 1) * 256 ^ (octet :: rest).length := by
        rw [length_cons, Nat.pow_succ', Nat.mul_assoc]

theorem Quad.number_lt (h : Quad s octets) : number octets 0 < 4294967296 := by
  have hlt := Tunnel.number_lt h.octet 0
  rwa [h.four] at hlt

theorem exists_quad (h : parseIpv4 s = some v) :
    ∃ octets, Quad s octets ∧ v.toNat = number octets 0 := by
  obtain ⟨value, hparse, rfl⟩ := Option.map_eq_some_iff.mp h
  obtain ⟨octets, hfour, hoctets, htext, rfl⟩ := parseOctets_some hparse
  have hquad : Quad s octets := ⟨hfour, hoctets, htext⟩
  refine ⟨octets, hquad, ?_⟩
  rw [UInt32.toNat_ofNat', Nat.mod_eq_of_lt hquad.number_lt]

theorem Quad.parseIpv4 (h : Quad s octets) :
    parseIpv4 s = some (UInt32.ofNat (number octets 0)) := by
  have hne : octets ≠ [] := by
    apply ne_nil_of_length_pos
    rw [h.four]
    decide
  have hparse := parseOctets_dotted hne h.octet 0
  rw [h.four] at hparse
  rw [Tunnel.parseIpv4, h.text, hparse]
  rfl

theorem mem_dotted (h : c ∈ dotted octets) : c = dot ∨ ∃ octet ∈ octets, c ∈ octet := by
  induction octets with
  | nil => cases h
  | cons octet rest ih =>
    cases rest with
    | nil =>
      rw [dotted_singleton] at h
      exact Or.inr ⟨octet, mem_cons_self, h⟩
    | cons next later =>
      rw [dotted_cons_cons, mem_append, mem_cons] at h
      obtain h | rfl | h := h
      · exact Or.inr ⟨octet, mem_cons_self, h⟩
      · exact Or.inl rfl
      · obtain hdot | ⟨found, hfound, hc⟩ := ih h
        · exact Or.inl hdot
        · exact Or.inr ⟨found, mem_cons_of_mem octet hfound, hc⟩

theorem length_dotted_le (h : ∀ octet ∈ octets, Octet octet) :
    (dotted octets).length ≤ 4 * octets.length := by
  induction octets with
  | nil => exact Nat.le_refl 0
  | cons octet rest ih =>
    rw [forall_mem_cons] at h
    have hshort := h.1.short
    cases rest with
    | nil =>
      rw [dotted_singleton, length_singleton]
      omega
    | cons next later =>
      have hlater := ih h.2
      rw [dotted_cons_cons, length_append, length_cons]
      rw [length_cons] at hlater ⊢
      rw [length_cons]
      omega

theorem parseIpv4_chars (h : parseIpv4 s = some v) : ∀ c ∈ s, isDigit c ∨ c = dot := by
  intro c hc
  obtain ⟨octets, hquad, -⟩ := exists_quad h
  rw [hquad.text] at hc
  obtain hdot | ⟨octet, hoctet, hmem⟩ := mem_dotted hc
  · exact Or.inr hdot
  · exact Or.inl (all_eq_true.mp (hquad.octet octet hoctet).digits c hmem)

theorem parseIpv4_length (h : parseIpv4 s = some v) : s.length ≤ 16 := by
  obtain ⟨octets, hquad, -⟩ := exists_quad h
  have hlength := length_dotted_le hquad.octet
  rwa [hquad.four, ← hquad.text] at hlength

/-! ## The tunnel subnet -/

theorem and_netmask (h : n < 4294967296) : n &&& 4294967040 = n / 256 * 256 := by
  apply Nat.eq_of_testBit_eq
  intro i
  have hmask : 4294967040 = (2 ^ 24 - 1) * 2 ^ 8 := rfl
  have hfloor : n / 256 * 256 = n / 2 ^ 8 * 2 ^ 8 := rfl
  rw [hmask, hfloor, Nat.testBit_and, Nat.testBit_mul_two_pow, Nat.testBit_mul_two_pow,
    Nat.testBit_two_pow_sub_one, Nat.testBit_div_two_pow]
  by_cases hlow : 8 ≤ i
  · by_cases hhigh : i < 32
    · have hin : i - 8 < 24 := by omega
      simp [hlow, hin]
    · have hzero : n.testBit i = false := by
        have hpow : 2 ^ 32 ≤ 2 ^ i := Nat.pow_le_pow_right (by decide) (Nat.le_of_not_lt hhigh)
        exact Nat.testBit_lt_two_pow (Nat.lt_of_lt_of_le h hpow)
      simp [hlow, hzero]
  · simp [hlow]

theorem splitCidr_tunnelSubnet : splitCidr tunnelSubnet = some (0x0A4D4D00, 24) := by
  decide +kernel

theorem validTunnelIp_iff :
    validTunnelIp ip ↔
      ∃ v, parseIpv4 ip = some v ∧ 0x0A4D4D00 < v.toNat ∧ v.toNat < 0x0A4D4DFF := by
  unfold validTunnelIp
  rw [splitCidr_tunnelSubnet]
  cases hparse : parseIpv4 ip with
  | none => simp
  | some v =>
    have hand : (v &&& 0xFFFFFF00).toNat = v.toNat / 256 * 256 := by
      rw [UInt32.toNat_and]
      exact and_netmask v.toNat_lt
    have hsubnet : (v &&& 0xFFFFFF00 = 0x0A4D4D00 ∧ v ≠ 0x0A4D4D00 ∧ v ≠ 0x0A4D4DFF) ↔
        0x0A4D4D00 < v.toNat ∧ v.toNat < 0x0A4D4DFF := by
      have hnet : (0x0A4D4D00 : UInt32).toNat = 0x0A4D4D00 := rfl
      have hlast : (0x0A4D4DFF : UInt32).toNat = 0x0A4D4DFF := rfl
      rw [Ne, Ne, ← UInt32.toNat_inj, ← UInt32.toNat_inj, ← UInt32.toNat_inj, hand, hnet, hlast]
      omega
    change (if v &&& 0xFFFFFF00 ≠ 0x0A4D4D00 then false else if v = 0x0A4D4D00 then false
      else if v = 0x0A4D4DFF then false else true) = true ↔ _
    simp [← hsubnet]

theorem slash_notMem_of_parseIpv4 (h : parseIpv4 s = some v) : slash ∉ s := by
  intro hmem
  exact absurd (parseIpv4_chars h slash hmem) (by decide)

theorem takeWhile_hostRoute (h : slash ∉ ip) : (hostRoute ip).takeWhile (· ≠ slash) = ip := by
  have hhead : (ascii "/32").head? = some slash := rfl
  exact takeWhile_until h (by simp [hhead])

theorem splitCidr_hostRoute (h : parseIpv4 ip = some v) :
    splitCidr (hostRoute ip) = some (v, 32) := by
  have hmem : slash ∈ hostRoute ip := mem_append_right ip (by decide)
  have hlen : (hostRoute ip).drop (ip.length + 1) = [51, 50] := by
    rw [hostRoute, ← drop_drop, drop_left]
    rfl
  rw [splitCidr, if_neg (not_not_intro hmem)]
  dsimp only
  rw [takeWhile_hostRoute (slash_notMem_of_parseIpv4 h), hlen, h]
  rfl

theorem routeAllowed_hostRoute (h : validTunnelIp ip) : routeAllowed (hostRoute ip) = .ok () := by
  obtain ⟨v, hparse, hlow, hhigh⟩ := validTunnelIp_iff.mp h
  have hzero : v ≠ 0 := by
    rintro rfl
    exact absurd hlow (by decide)
  have hloopback : v >>> 24 ≠ 127 := by
    rw [Ne, ← UInt32.toNat_inj, UInt32.toNat_shiftRight, Nat.shiftRight_eq_div_pow]
    change ¬ v.toNat / 16777216 = 127
    omega
  have hmulticast : v >>> 28 ≠ 0xE := by
    rw [Ne, ← UInt32.toNat_inj, UInt32.toNat_shiftRight, Nat.shiftRight_eq_div_pow]
    change ¬ v.toNat / 268435456 = 14
    omega
  have hbroadcast : v ≠ 0xffffffff := by
    rintro rfl
    exact absurd hhigh (by decide)
  rw [routeAllowed, splitCidr_hostRoute hparse,
    takeWhile_hostRoute (slash_notMem_of_parseIpv4 hparse)]
  simp [hzero, hloopback, hmulticast, hbroadcast, h]

theorem splitCidr_eq_none (h : slash ∉ pre) :
    splitCidr (hostRoute (pre ++ slash :: post)) = none := by
  have hroute : hostRoute (pre ++ slash :: post) = pre ++ slash :: (post ++ ascii "/32") := by
    simp [hostRoute]
  have hmem : slash ∈ pre ++ slash :: (post ++ ascii "/32") := by simp
  have hlen : (pre ++ slash :: (post ++ ascii "/32")).drop (pre.length + 1) =
      post ++ ascii "/32" := by
    rw [← drop_drop, drop_left]
    rfl
  have hlong : (post ++ ascii "/32").length > 2 := by
    rw [length_append]
    exact Nat.le_add_left 3 post.length
  rw [hroute, splitCidr, if_neg (not_not_intro hmem)]
  dsimp only
  rw [takeWhile_until h (by simp), hlen, if_pos (Or.inr (Or.inl hlong))]

theorem validTunnelIp_of_routeAllowed (h : routeAllowed (hostRoute ip) = .ok ()) :
    validTunnelIp ip := by
  obtain ⟨pre, post, hpre, hpost, rfl⟩ := exists_until slash ip
  cases post with
  | nil =>
    rw [append_nil] at h ⊢
    unfold routeAllowed at h
    split at h
    · cases h
    · simp only [check_ok_iff, takeWhile_hostRoute hpre, Bool.not_eq_true', Bool.not_eq_false] at h
      obtain ⟨-, -, -, -, -, hvalid, -⟩ := h
      exact hvalid
  | cons c post =>
    cases hpost c rfl
    rw [routeAllowed, splitCidr_eq_none hpre] at h
    cases h

end Scshr.Tunnel
