import Scshr.Mac.Checks
import Scshr.Tunnel.TunnelAddress

/-! The two checks of an endpoint host.  Where the script's `is_endpoint_host` accepts a
host, the Windows side's `valid_endpoint_host` also bounds its labels and reads its
octets. -/
namespace Scshr.Mac

open Common Lib Lib.Decimal Tunnel
open List hiding tail

/-- The spelling of an octet that Windows reads: at most three digits, and no zeros in
front of a single one. -/
def plainOctet (octet : Bytes) : Bool :=
  octet.length ≤ 3 && !(1 < octet.length && read octet < 10)

def isNumeric (host : Bytes) : Bool := host.all fun c => isDigit c || c = dot

def HostAgrees (host : Bytes) : Prop :=
  newline ∉ host ∧
    if isNumeric host then
      (host.splitOn dot).length = 4 ∧ ∀ octet ∈ host.splitOn dot, plainOctet octet
    else ∀ label ∈ host.splitOn dot, label.length ≤ 63

/-! ## Labels -/

structure NameLabel (label : Bytes) : Prop where
  nonempty : label ≠ []
  chars : ∀ c ∈ label, isAlnum c ∨ c = hyphen
  head : label.head? ≠ some hyphen
  last : label.getLast? ≠ some hyphen

theorem any_isAlnum (h : c?.any isAlnum) : c? ≠ none ∧ c? ≠ some hyphen := by
  cases c? with
  | none => cases h
  | some c =>
    refine ⟨by simp, ?_⟩
    rintro heq
    cases heq
    cases h

theorem hostLabel_label (h : hostLabel label) : NameLabel label := by
  simp only [hostLabel, Bool.and_eq_true, all_eq_true, Bool.or_eq_true,
    decide_eq_true_iff] at h
  obtain ⟨⟨hchars, hhead⟩, hlast⟩ := h
  refine ⟨?_, hchars, (any_isAlnum hhead).2, (any_isAlnum hlast).2⟩
  rintro rfl
  exact (any_isAlnum hhead).1 rfl

theorem NameLabel.dot_notMem (h : NameLabel label) : dot ∉ label := by
  intro hmem
  rcases h.chars dot hmem with hdot | hdot
  · cases hdot
  · exact absurd hdot (by decide)

theorem validLabels_append (hchars : ∀ c ∈ label, isAlnum c ∨ c = hyphen)
    (hhead : n = 0 → label.head? ≠ some hyphen) (hlast : label.getLast? ≠ some hyphen)
    (hn : n ≤ 63) :
    validLabels (label ++ tail) n ↔
      n + label.length ≤ 63 ∧ validLabels tail (n + label.length) := by
  induction label generalizing n with
  | nil => simp [hn]
  | cons c rest ih =>
    rw [forall_mem_cons] at hchars
    have hdot : c ≠ dot := by
      rintro rfl
      rcases hchars.1 with hc | hc
      · cases hc
      · exact absurd hc (by decide)
    have hgood : (!(isAlnum c || decide (c = hyphen))) = false := by
      rcases hchars.1 with hc | hc <;> simp [hc]
    have hhyphen : ¬ (c = hyphen ∧
        (n = 0 ∨ rest ++ tail = [] ∨ (rest ++ tail).head? = some dot)) := by
      rintro ⟨rfl, hzero | hend⟩
      · exact hhead hzero rfl
      · cases rest with
        | nil => exact hlast rfl
        | cons d more =>
          rcases hend with hend | hend
          · cases hend
          · cases hend
            rcases hchars.2 dot mem_cons_self with hd | hd
            · cases hd
            · exact absurd hd (by decide)
    have hlastRest : rest.getLast? ≠ some hyphen := by
      cases rest with
      | nil => simp
      | cons d more => rwa [List.getLast?_cons_cons] at hlast
    rw [cons_append, validLabels, if_neg hdot, if_neg (by simp [hgood]), if_neg hhyphen]
    split
    · case isTrue hlong =>
      simp only [length_cons, Bool.false_eq_true, false_iff, not_and]
      intro hshort
      omega
    · case isFalse hshort =>
      rw [ih hchars.2 (by simp) hlastRest (by omega), length_cons, Nat.add_right_comm,
        Nat.add_assoc]

theorem validLabels_dotted (hne : labels ≠ []) (h : ∀ label ∈ labels, NameLabel label) :
    validLabels (dotted labels) 0 ↔ ∀ label ∈ labels, label.length ≤ 63 := by
  induction labels with
  | nil => exact absurd rfl hne
  | cons label rest ih =>
    rw [forall_mem_cons] at h
    have hpos := length_pos_of_ne_nil h.1.nonempty
    cases rest with
    | nil =>
      have hlabel : validLabels (label ++ []) 0 ↔ _ :=
        validLabels_append h.1.chars (fun _ => h.1.head) h.1.last (Nat.zero_le 63)
      rw [append_nil, Nat.zero_add] at hlabel
      rw [dotted_singleton, hlabel]
      have hend : validLabels [] label.length := by
        simp only [validLabels, decide_eq_true_iff]
        omega
      simp [hend]
    | cons next more =>
      have hrest := ih (by simp) h.2
      have hlabel : validLabels (label ++ dot :: dotted (next :: more)) 0 ↔ _ :=
        validLabels_append h.1.chars (fun _ => h.1.head) h.1.last (Nat.zero_le 63)
      have hdot : validLabels (dot :: dotted (next :: more)) label.length =
          validLabels (dotted (next :: more)) 0 := by
        rw [validLabels, if_pos rfl, if_neg (by omega)]
      rw [dotted_cons_cons, hlabel, Nat.zero_add, hdot, hrest]
      exact (forall_mem_cons (p := fun label : Bytes => label.length ≤ 63)).symm

theorem validLabels_append_dot (text : Bytes) (n : Nat) :
    validLabels (text ++ [dot]) n = false := by
  induction text generalizing n with
  | nil =>
    rw [nil_append, validLabels, if_pos rfl]
    split
    · rfl
    · rfl
  | cons c rest ih =>
    rw [cons_append, validLabels]
    split
    · split
      · rfl
      · exact ih 0
    · split
      · rfl
      · split
        · rfl
        · split
          · rfl
          · exact ih (n + 1)

theorem validHostname_iff (hne : host ≠ []) (hlength : host.length ≤ 253) :
    validHostname host ↔ validLabels host 0 ∧ isNumeric host = false := by
  have hempty : ¬ (host = [] ∨ host.length > 253) := by
    rw [not_or]
    exact ⟨hne, Nat.not_lt_of_le hlength⟩
  rw [validHostname, if_neg hempty]
  split
  · case isTrue hdots =>
    have hlabels : validLabels host 0 = false := by
      rcases hdots with hdots | hdots
      · obtain ⟨rest, rfl⟩ := List.head?_eq_some_iff.mp hdots
        rw [validLabels, if_pos rfl, if_pos rfl]
      · obtain ⟨front, rfl⟩ := List.getLast?_eq_some_iff.mp hdots
        exact validLabels_append_dot front 0
    simp [hlabels]
  · split
    · case isTrue hlabels =>
      rw [Bool.not_eq_true'] at hlabels
      simp [hlabels]
    · case isFalse hlabels =>
      rw [Bool.not_eq_true', Bool.not_eq_false] at hlabels
      simp [hlabels, isNumeric]

/-! ## Octets -/

theorem readFields_dotted (more : Nat) (hlength : octets.length = more + 1)
    (h : ∀ octet ∈ octets, dot ∉ octet) : readFields more (dotted octets) = octets := by
  induction more generalizing octets with
  | zero =>
    obtain ⟨octet, rfl⟩ := length_eq_one_iff.mp hlength
    have hdot : dot ∉ octet := h octet mem_cons_self
    have htake : (octet ++ []).takeWhile (· ≠ dot) = octet := takeWhile_until hdot (by simp)
    rw [append_nil] at htake
    rw [dotted_singleton, readFields, htake]
    simp
  | succ more ih =>
    match octets, hlength with
    | octet :: next :: rest, hlength =>
      rw [forall_mem_cons] at h
      have htake : (octet ++ dot :: dotted (next :: rest)).takeWhile (· ≠ dot) = octet :=
        takeWhile_until h.1 (by simp)
      have hdrop : (octet ++ dot :: dotted (next :: rest)).dropWhile (· ≠ dot) =
          dot :: dotted (next :: rest) := by
        have hsplit := takeWhile_append_dropWhile (p := (· ≠ dot))
          (l := octet ++ dot :: dotted (next :: rest))
        rw [htake] at hsplit
        exact append_cancel_left hsplit
      have hrest := ih (by simpa using hlength) h.2
      rw [dotted_cons_cons, readFields, htake, hdrop, drop_one, tail_cons, hrest]

/-! ## Accepted hosts -/

section

variable {host octet c a b d : Bytes} {octets : List Bytes} {v : UInt32}

theorem quadLine_iff : quadLine host ↔ (host.splitOn dot).length = 4 ∧
    ∀ octet ∈ host.splitOn dot, octet ≠ [] ∧ octet.all isDigit := by
  simp [quadLine]

theorem dotted_splitOn (host : Bytes) : dotted (host.splitOn dot) = host :=
  intercalate_splitOn dot

structure ShellQuad (host a b c d : Bytes) : Prop where
  octets : host.splitOn dot = [a, b, c, d]
  digits : ∀ octet ∈ [a, b, c, d], octet ≠ [] ∧ octet.all isDigit
  bytes : ∀ octet ∈ [a, b, c, d], read octet ≤ 255
  nonzero : a ≠ ascii "0"
  loopback : a ≠ ascii "127"
  unicast : read a ≤ 223

theorem isEndpointHost_cases (hline : newline ∉ host) (h : isEndpointHost host) :
    host ≠ [] ∧ host.length ≤ 253 ∧
      ((∃ a b c d, ShellQuad host a b c d) ∨
        (quadLine host = false ∧ ∀ label ∈ host.splitOn dot, NameLabel label)) := by
  unfold isEndpointHost at h
  split at h
  · cases h
  · case isFalse hne =>
    split at h
    · cases h
    · case isFalse hlength =>
      refine ⟨hne, Nat.le_of_not_lt hlength, ?_⟩
      rw [grepQuiet_single hne hline, grepQuiet_single hne hline] at h
      split at h
      · case isTrue hquad =>
        left
        obtain ⟨hfour, hdigits⟩ := quadLine_iff.mp hquad
        match hoctets : host.splitOn dot, hfour with
        | [a, b, c, d], _ =>
          rw [hoctets] at hdigits
          have htake : (host ++ []).takeWhile (· ≠ newline) = host :=
            takeWhile_until hline (by simp)
          have hdots : ∀ octet ∈ [a, b, c, d], dot ∉ octet := by
            intro octet hoctet hmem
            exact absurd (all_eq_true.mp (hdigits octet hoctet).2 dot hmem) (by decide)
          have hfields : readFields 3 host = [a, b, c, d] := by
            rw [← dotted_splitOn host, hoctets]
            exact readFields_dotted 3 rfl hdots
          rw [append_nil] at htake
          simp only [htake, hfields, headD_cons, Bool.and_eq_true, all_eq_true,
            decide_eq_true_iff] at h
          obtain ⟨⟨⟨hbytes, hnonzero⟩, hloopback⟩, hunicast⟩ := h
          have ha := hdigits a mem_cons_self
          refine ⟨a, b, c, d, hoctets, hdigits, ?_, hnonzero, hloopback, ?_⟩
          · intro octet hoctet
            have hdigit := hdigits octet hoctet
            exact (testLe_digits hdigit.1 hdigit.2 (by decide)).mp (hbytes octet hoctet)
          · exact (testLe_digits ha.1 ha.2 (by decide)).mp hunicast
      · case isFalse hquad =>
        rw [Bool.not_eq_true] at hquad
        simp only [hostLine, all_eq_true] at h
        exact .inr ⟨hquad, fun label hlabel => hostLabel_label (h label hlabel)⟩

/-! ## What Windows makes of them -/

theorem plainOctet_iff :
    plainOctet octet ↔ octet.length ≤ 3 ∧ ¬ (1 < octet.length ∧ read octet < 10) := by
  rw [plainOctet, Bool.and_eq_true, decide_eq_true_iff, Bool.not_eq_true', ← Bool.not_eq_true,
    Bool.and_eq_true, decide_eq_true_iff, decide_eq_true_iff]

theorem parseIpv4_of_plain (hfour : octets.length = 4) (htext : host.splitOn dot = octets)
    (h : ∀ octet ∈ octets, octet ≠ [] ∧ octet.all isDigit ∧ read octet ≤ 255 ∧ plainOctet octet) :
    parseIpv4 host = some (UInt32.ofNat (number octets 0)) := by
  have hquad : Quad host octets := by
    refine ⟨hfour, ?_, ?_⟩
    · intro octet hoctet
      obtain ⟨hne, hdigits, hbyte, hplain⟩ := h octet hoctet
      obtain ⟨hshort, hzeros⟩ := plainOctet_iff.mp hplain
      exact ⟨hdigits, hne, hshort, hbyte, hzeros⟩
    · rw [← htext, dotted_splitOn]
  exact hquad.parseIpv4

theorem plain_of_parseIpv4 (h : parseIpv4 host = some v) :
    (host.splitOn dot).length = 4 ∧ ∀ octet ∈ host.splitOn dot, octet ≠ [] ∧ octet.all isDigit ∧
      plainOctet octet := by
  obtain ⟨octets, hquad, -⟩ := exists_quad h
  have hsplit : host.splitOn dot = octets := by
    rw [hquad.text, splitOn_dotted hquad.octet hquad.ne_nil]
  rw [hsplit]
  refine ⟨hquad.four, ?_⟩
  intro octet hoctet
  have hgood := hquad.octet octet hoctet
  exact ⟨hgood.nonempty, hgood.digits, plainOctet_iff.mpr ⟨hgood.short, hgood.zeros⟩⟩

theorem eq_write_of_plain (hne : octet ≠ []) (hdigits : octet.all isDigit)
    (hplain : plainOctet octet) (hvalue : read octet = value) (hlong : value < 10 ∨ 100 ≤ value) :
    octet = write value := by
  obtain ⟨hshort, hzeros⟩ := plainOctet_iff.mp hplain
  have hstrip := write_read hne hdigits
  rw [hvalue] at hstrip
  rw [hstrip]
  apply Eq.symm
  rw [strip_eq_self_iff]
  rintro ⟨hlength, hhead⟩
  rcases hlong with hsmall | hlarge
  · exact hzeros ⟨hlength, by omega⟩
  · -- behind the zero there is room for two digits
    have hzero : (48 : UInt8).toNat = 48 := rfl
    match octet, hshort with
    | [_, d], _ =>
      cases hhead
      have hd := isDigit_iff.mp (all_eq_true.mp hdigits d (by simp))
      simp only [Decimal.read, push, foldl_cons, foldl_nil] at hvalue
      omega
    | [_, d, e], _ =>
      cases hhead
      have hd := isDigit_iff.mp (all_eq_true.mp hdigits d (by simp))
      have he := isDigit_iff.mp (all_eq_true.mp hdigits e (by simp))
      simp only [Decimal.read, push, foldl_cons, foldl_nil] at hvalue
      omega

theorem ipv4UsableEndpoint_of (hlow : 2 ^ 24 ≤ v.toNat) (hloopback : v.toNat / 2 ^ 24 ≠ 127)
    (hunicast : v.toNat / 2 ^ 28 < 14) : ipv4UsableEndpoint v := by
  have hhigh : (v >>> 24).toNat = v.toNat / 2 ^ 24 := by
    rw [UInt32.toNat_shiftRight, ← Nat.shiftRight_eq_div_pow]
    rfl
  have hclass : (v >>> 28).toNat = v.toNat / 2 ^ 28 := by
    rw [UInt32.toNat_shiftRight, ← Nat.shiftRight_eq_div_pow]
    rfl
  have hends : ¬ (v = 0 ∨ v = 0xffffffff) := by
    rintro (rfl | rfl)
    · exact absurd hlow (by decide)
    · exact absurd hunicast (by decide)
  have hloop : v >>> 24 ≠ 127 := by
    intro heq
    rw [heq] at hhigh
    exact hloopback hhigh.symm
  have hmulticast : v >>> 28 ≠ 0xE := by
    intro heq
    rw [heq] at hclass
    exact absurd hclass (Nat.ne_of_gt hunicast)
  have hreserved : v >>> 28 ≠ 0xF := by
    intro heq
    rw [heq] at hclass
    exact absurd hclass (Nat.ne_of_gt (Nat.lt_succ_of_lt hunicast))
  rw [ipv4UsableEndpoint, if_neg hends, if_neg hloop, if_neg hmulticast, if_neg hreserved]

theorem mem_dotted_of_mem {c : UInt8} (hoctet : octet ∈ octets) (hc : c ∈ octet) :
    c ∈ dotted octets := by
  induction octets with
  | nil => cases hoctet
  | cons first rest ih =>
    cases rest with
    | nil =>
      rw [mem_singleton] at hoctet
      rwa [dotted_singleton, ← hoctet]
    | cons next more =>
      rw [dotted_cons_cons, mem_append, mem_cons]
      rcases mem_cons.mp hoctet with rfl | hrest
      · exact .inl hc
      · exact .inr (.inr (ih hrest))

theorem ShellQuad.usable (h : ShellQuad host a b c d)
    (hplain : ∀ octet ∈ [a, b, c, d], plainOctet octet) :
    ∃ v, parseIpv4 host = some v ∧ ipv4UsableEndpoint v := by
  have hoctets : ∀ octet ∈ [a, b, c, d],
      octet ≠ [] ∧ octet.all isDigit ∧ read octet ≤ 255 ∧ plainOctet octet := by
    intro octet hoctet
    have hdigits := h.digits octet hoctet
    exact ⟨hdigits.1, hdigits.2, h.bytes octet hoctet, hplain octet hoctet⟩
  refine ⟨_, parseIpv4_of_plain rfl h.octets hoctets, ?_⟩
  obtain ⟨hne, hdigits, -, hspelled⟩ := hoctets a mem_cons_self
  have hzero : read a ≠ 0 := fun hvalue =>
    h.nonzero (eq_write_of_plain hne hdigits hspelled hvalue (.inl (by decide)))
  have hloopback : read a ≠ 127 := fun hvalue =>
    h.loopback (eq_write_of_plain hne hdigits hspelled hvalue (.inr (by decide)))
  have hunicast := h.unicast
  have hb := h.bytes b (by simp)
  have hc := h.bytes c (by simp)
  have hd := h.bytes d (by simp)
  have hvalue : (UInt32.ofNat (number [a, b, c, d] 0)).toNat =
      ((read a * 256 + read b) * 256 + read c) * 256 + read d := by
    rw [UInt32.toNat_ofNat', number_eq]
    simp only [map_cons, map_nil, foldl_cons, foldl_nil]
    omega
  apply ipv4UsableEndpoint_of
  · rw [hvalue]
    omega
  · rw [hvalue]
    omega
  · rw [hvalue]
    omega

theorem validEndpointHost_eq (hne : host ≠ []) (hlength : host.length ≤ 253)
    (hbracket : ∀ label ∈ host.splitOn dot, 91 ∉ label) :
    validEndpointHost host =
      match parseIpv4 host with
      | some v => ipv4UsableEndpoint v
      | none => validHostname host := by
  have hempty : ¬ (host = [] ∨ host.length > 255) := by
    rw [not_or]
    exact ⟨hne, by omega⟩
  have hhead : host.head? ≠ some 91 := by
    intro hhead
    have hmem := mem_of_mem_head? hhead
    rw [← dotted_splitOn host] at hmem
    rcases mem_dotted hmem with hdot | ⟨label, hlabel, hmem⟩
    · exact absurd hdot (by decide)
    · exact hbracket label hlabel hmem
  unfold validEndpointHost
  exact (if_neg hempty).trans (if_neg hhead)

theorem isNumeric_iff : isNumeric host ↔ ∀ label ∈ host.splitOn dot, ∀ c ∈ label,
    isDigit c ∨ c = dot := by
  constructor
  · intro h label hlabel c hc
    have hmem : c ∈ host := by
      rw [← dotted_splitOn host]
      exact mem_dotted_of_mem hlabel hc
    simpa using all_eq_true.mp h c hmem
  · intro h
    rw [isNumeric, all_eq_true]
    intro c hc
    rw [← dotted_splitOn host] at hc
    rcases mem_dotted hc with hdot | ⟨label, hlabel, hmem⟩
    · simp [hdot]
    · simpa using h label hlabel c hmem

theorem ShellQuad.isNumeric (h : ShellQuad host a b c d) : isNumeric host := by
  rw [isNumeric_iff, h.octets]
  intro octet hoctet c hc
  exact .inl (all_eq_true.mp (h.digits octet hoctet).2 c hc)

theorem ShellQuad.valid_iff (h : ShellQuad host a b c d) (hne : host ≠ [])
    (hlength : host.length ≤ 253) :
    validEndpointHost host ↔ ∀ octet ∈ [a, b, c, d], plainOctet octet := by
  have hbracket : ∀ label ∈ host.splitOn dot, 91 ∉ label := by
    rw [h.octets]
    intro octet hoctet hmem
    exact absurd (all_eq_true.mp (h.digits octet hoctet).2 91 hmem) (by decide)
  rw [validEndpointHost_eq hne hlength hbracket]
  constructor
  · intro hvalid
    cases hparse : parseIpv4 host with
    | some v =>
      have hplain := (plain_of_parseIpv4 hparse).2
      rw [h.octets] at hplain
      exact fun octet hoctet => (hplain octet hoctet).2.2
    | none =>
      rw [hparse] at hvalid
      have hnumeric := h.isNumeric
      rw [((validHostname_iff hne hlength).mp hvalid).2] at hnumeric
      cases hnumeric
  · intro hplain
    obtain ⟨v, hparse, husable⟩ := h.usable hplain
    rw [hparse]
    exact husable

theorem validEndpointHost_name_iff (hne : host ≠ []) (hlength : host.length ≤ 253)
    (hquad : quadLine host = false) (h : ∀ label ∈ host.splitOn dot, NameLabel label) :
    validEndpointHost host ↔
      isNumeric host = false ∧ ∀ label ∈ host.splitOn dot, label.length ≤ 63 := by
  have hbracket : ∀ label ∈ host.splitOn dot, 91 ∉ label := by
    intro label hlabel hmem
    rcases (h label hlabel).chars 91 hmem with hc | hc
    · exact absurd hc (by decide)
    · exact absurd hc (by decide)
  have hparse : parseIpv4 host = none := by
    cases hparse : parseIpv4 host with
    | none => rfl
    | some v =>
      obtain ⟨hfour, hoctets⟩ := plain_of_parseIpv4 hparse
      have hline := quadLine_iff.mpr ⟨hfour, fun octet hoctet =>
        ⟨(hoctets octet hoctet).1, (hoctets octet hoctet).2.1⟩⟩
      rw [hquad] at hline
      cases hline
  have hlabels := validLabels_dotted (splitOn_ne_nil dot host) h
  rw [dotted_splitOn] at hlabels
  rw [validEndpointHost_eq hne hlength hbracket, hparse]
  dsimp only
  rw [validHostname_iff hne hlength, hlabels, and_comm]

theorem validEndpointHost_iff (h : isEndpointHost host) :
    validEndpointHost host ↔ HostAgrees host := by
  by_cases hline : newline ∈ host
  · constructor
    · intro hvalid
      exact absurd hline (plain_of_validEndpointHost hvalid).1.line
    · exact fun hagrees => absurd hline hagrees.1
  · obtain ⟨hne, hlength, ⟨a, b, c, d, hquad⟩ | ⟨hquad, hlabels⟩⟩ := isEndpointHost_cases hline h
    · rw [hquad.valid_iff hne hlength, HostAgrees, if_pos hquad.isNumeric, hquad.octets]
      exact ⟨fun hplain => ⟨hline, rfl, hplain⟩, fun hagrees => hagrees.2.2⟩
    · rw [validEndpointHost_name_iff hne hlength hquad hlabels, HostAgrees]
      cases hnumeric : isNumeric host with
      | false => simp [hline]
      | true =>
        have hfour : (host.splitOn dot).length ≠ 4 := by
          intro hfour
          have hdigits : ∀ octet ∈ host.splitOn dot, octet ≠ [] ∧ octet.all isDigit := by
            intro octet hoctet
            refine ⟨(hlabels octet hoctet).nonempty, all_eq_true.mpr ?_⟩
            intro c hc
            rcases isNumeric_iff.mp hnumeric octet hoctet c hc with hdigit | rfl
            · exact hdigit
            · exact absurd hc (hlabels octet hoctet).dot_notMem
          rw [quadLine_iff.mpr ⟨hfour, hdigits⟩] at hquad
          cases hquad
        simp [hfour]

end

end Scshr.Mac
