import Scshr.Mac.EndpointHost
import Scshr.Mac.Keys
import Mathlib.Data.Set.List

/-! Pairing codes between the two sides: which codes of the Mac's script the Windows side
reads, and which codes of the Windows side the script reads. -/
namespace Scshr.Mac

open Common Lib Lib.Decimal Lib.Sextets Tunnel List

/-! ## Base64 -/

theorem toUrl_digitChar (digit : Sextet) :
    toUrl (digitChar stdAlphabet digit) = digitChar urlAlphabet digit := by
  rw [digitChar, digitChar, stdAlphabet_eq, urlAlphabet_eq]
  revert digit
  decide +kernel

theorem toStd_digitChar (digit : Sextet) :
    toStd (digitChar urlAlphabet digit) = digitChar stdAlphabet digit := by
  rw [digitChar, digitChar, stdAlphabet_eq, urlAlphabet_eq]
  revert digit
  decide +kernel

theorem b64urlEncode_eq (raw : Bytes) : b64urlEncode raw = base64urlEncode raw := by
  have hdigits : ∀ c ∈ (ofBytes raw).map (digitChar urlAlphabet), c ≠ equalsSign := by
    rintro c hc rfl
    obtain ⟨digit, -, hdigit⟩ := mem_map.mp hc
    exact alphabet_url.padding (hdigit ▸ alphabet_url.digitChar_mem digit)
  have hmap : ((ofBytes raw).map (digitChar stdAlphabet)).map toUrl =
      (ofBytes raw).map (digitChar urlAlphabet) := by
    rw [map_map]
    exact map_congr_left fun digit _ => toUrl_digitChar digit
  have hpadding : ∀ count, ((List.replicate count equalsSign).map toUrl).filter
      (· ≠ equalsSign) = [] := by
    intro count
    rw [map_replicate, filter_replicate]
    rfl
  calc b64urlEncode raw
      = ((b64Encode stdAlphabet true raw).map toUrl).filter (· ≠ equalsSign) := rfl
    _ = (ofBytes raw).map (digitChar urlAlphabet) := by
      rw [b64Encode_pad, b64Encode_eq_map, map_append, filter_append, hpadding, hmap,
        append_nil, filter_eq_self.mpr]
      simpa using hdigits
    _ = base64urlEncode raw := (b64Encode_eq_map raw).symm

/-! ## Keys -/

/-- The digits a canonical key can end in: those with two low zero bits. -/
def keyEnds : Bytes := ascii "AEIMQUYcgkosw048"

theorem digitChar_mem_keyEnds (digit : Sextet) :
    digitChar stdAlphabet digit ∈ keyEnds ↔ digit.val % 4 = 0 := by
  have hends : keyEnds = [65, 69, 73, 77, 81, 85, 89, 99, 103, 107, 111, 115, 119, 48, 52, 56] := by
    decide +kernel
  rw [digitChar, stdAlphabet_eq, hends]
  revert digit
  decide +kernel

theorem canonicalKey_iff_last :
    CanonicalKey key ↔ ∃ (front : List Sextet) (last : Sextet), front.length = 42 ∧
      last.val % 4 = 0 ∧
      key = front.map (digitChar stdAlphabet) ++ [digitChar stdAlphabet last, equalsSign] := by
  rw [canonicalKey_iff_digits]
  constructor
  · rintro ⟨digits, hlength, hlast, rfl⟩
    obtain ⟨front, last, rfl⟩ : ∃ front last, digits = front ++ [last] := by
      have hne : digits ≠ [] := ne_nil_of_length_pos (by omega)
      exact ⟨digits.dropLast, digits.getLast hne, (dropLast_append_getLast hne).symm⟩
    exact ⟨front, last, by simpa using hlength, hlast last (by simp), by simp⟩
  · rintro ⟨front, last, hlength, hlast, rfl⟩
    refine ⟨front ++ [last], by simp [hlength], ?_, by simp⟩
    intro y hy
    simp only [List.getLast?_append, List.getLast?_singleton, Option.some_or,
      Option.mem_some_iff] at hy
    rwa [← hy]

theorem mem_stdAlphabet_iff : c ∈ stdAlphabet ↔ ∃ digit, digitChar stdAlphabet digit = c := by
  constructor
  · intro h
    obtain ⟨index, hindex, rfl⟩ := mem_iff_getElem.mp h
    have hlt : index < 64 := by rwa [alphabet_std.size] at hindex
    exact ⟨⟨index, hlt⟩, getD_eq_getElem _ _ hindex⟩
  · rintro ⟨digit, rfl⟩
    exact alphabet_std.digitChar_mem digit

theorem wgKeyLine_iff :
    wgKeyLine line ↔ ∃ (front : List Sextet) (c : UInt8), front.length = 42 ∧
      (c ∈ stdAlphabet ∨ c = equalsSign) ∧
      line = front.map (digitChar stdAlphabet) ++ [c, equalsSign] := by
  have hchars : ∀ chars : Bytes, chars.all isWgKeyChar ↔
      ∃ digits : List Sextet, digits.map (digitChar stdAlphabet) = chars := by
    intro chars
    rw [all_eq_true]
    simp only [isWgKeyChar, contains_iff_mem, mem_stdAlphabet_iff]
    exact (Set.ext_iff.mp (Set.range_list_map (digitChar stdAlphabet)) chars).symm
  have hdrop : ∀ text : Bytes, text.drop 43 = (text.drop 42).drop 1 := by
    intro text
    rw [drop_drop]
  simp only [wgKeyLine, Bool.and_eq_true, decide_eq_true_iff, hchars]
  constructor
  · rintro ⟨⟨⟨hlength, digits, hdigits⟩, hpenultimate⟩, hlast⟩
    have hcount : digits.length = 42 := by
      have htake := congrArg List.length hdigits
      rw [length_map, length_take, hlength] at htake
      exact htake
    obtain ⟨c, e, hend⟩ : ∃ c e, line.drop 42 = [c, e] :=
      length_eq_two.mp (by rw [length_drop, hlength])
    rw [hdrop, hend] at hlast
    rw [hend] at hpenultimate
    have he : e = equalsSign := by simpa using hlast
    refine ⟨digits, c, hcount, ?_, ?_⟩
    · simpa [isWgKeyChar] using hpenultimate
    · rw [hdigits, ← he, ← hend, take_append_drop]
  · rintro ⟨front, c, hlength, hc, rfl⟩
    have hfront : (front.map (digitChar stdAlphabet)).length = 42 := by
      rw [length_map, hlength]
    have htake : (front.map (digitChar stdAlphabet) ++ [c, equalsSign]).take 42 =
        front.map (digitChar stdAlphabet) := by
      rw [← hfront, take_left]
    have hend : (front.map (digitChar stdAlphabet) ++ [c, equalsSign]).drop 42 =
        [c, equalsSign] := by
      rw [← hfront, drop_left]
    rw [htake, hdrop, hend]
    refine ⟨⟨⟨by simp [hlength], front, rfl⟩, ?_⟩, rfl⟩
    simpa [isWgKeyChar] using hc

theorem wgKeyLine_of_canonical (h : CanonicalKey key) : wgKeyLine key := by
  obtain ⟨front, last, hlength, -, rfl⟩ := canonicalKey_iff_last.mp h
  exact wgKeyLine_iff.mpr ⟨front, _, hlength, .inl (alphabet_std.digitChar_mem last), rfl⟩

theorem validWgKey_iff_of_isWgKey (h : isWgKey key) :
    validWgKey key ↔ newline ∉ key ∧ key.getD 42 0 ∈ keyEnds := by
  have hgetD : ∀ (front : List Sextet) (c : UInt8), front.length = 42 →
      (front.map (digitChar stdAlphabet) ++ [c, equalsSign]).getD 42 0 = c := by
    intro front c hlength
    rw [getD_append_right _ _ _ _ (by simp [hlength])]
    simp [hlength]
  rw [validWgKey_iff]
  constructor
  · intro hcanonical
    refine ⟨?_, ?_⟩
    · exact hcanonical.newline_notMem
    · obtain ⟨front, last, hlength, hlast, rfl⟩ := canonicalKey_iff_last.mp hcanonical
      rw [hgetD front _ hlength]
      exact (digitChar_mem_keyEnds last).mpr hlast
  · rintro ⟨hline, hend⟩
    have hne : key ≠ [] := by
      rintro rfl
      cases h
    rw [isWgKey, grepQuiet_single hne hline] at h
    obtain ⟨front, c, hlength, hc, rfl⟩ := wgKeyLine_iff.mp h
    rw [hgetD front c hlength] at hend
    have hc : c ∈ stdAlphabet := by
      rcases hc with hc | rfl
      · exact hc
      · exact absurd hend (by decide)
    obtain ⟨last, rfl⟩ := mem_stdAlphabet_iff.mp hc
    exact canonicalKey_iff_last.mpr
      ⟨front, last, hlength, (digitChar_mem_keyEnds last).mp hend, rfl⟩

/-! ## Addresses and ports -/

theorem validTunnelIp_iff_of_isTunnelIp (h : isTunnelIp ip) :
    validTunnelIp ip ↔ newline ∉ ip ∧ plainOctet (ip.drop tunnelSubnetPrefix.length) := by
  obtain ⟨front, digits, rfl, -, hnil | hnewline, hline, hlow, hhigh⟩ := isTunnelIp_cases h
  · subst hnil
    obtain ⟨hne, hdigits⟩ := octetLine_digits hline
    have hline : newline ∉ tunnelSubnetPrefix ++ digits := by
      rw [mem_append, not_or]
      exact ⟨by decide, newline_notMem_digits hdigits⟩
    rw [nil_append, drop_left, validTunnelIp_iff]
    constructor
    · rintro ⟨v, hparse, -⟩
      have hplain := (plain_of_parseIpv4 hparse).2
      rw [splitOn_ip hdigits] at hplain
      exact ⟨hline, (hplain digits (by simp)).2.2⟩
    · rintro ⟨-, hplain⟩
      have hoctets : ∀ octet ∈ [ascii "10", ascii "77", ascii "77", digits],
          octet ≠ [] ∧ octet.all isDigit ∧ read octet ≤ 255 ∧ plainOctet octet := by
        simp only [forall_mem_cons]
        exact ⟨by decide, by decide, by decide, ⟨hne, hdigits, by omega, hplain⟩, by simp⟩
      have hnumber : number [ascii "10", ascii "77", ascii "77", digits] 0 =
          0x0A4D4D00 + read digits := by
        have hten : read (ascii "10") = 10 := by decide
        have hseventy : read (ascii "77") = 77 := by decide
        rw [number_eq]
        simp only [map_cons, map_nil, foldl_cons, foldl_nil, hten, hseventy]
      refine ⟨_, parseIpv4_of_plain rfl (splitOn_ip hdigits) hoctets, ?_⟩
      rw [UInt32.toNat_ofNat', hnumber]
      omega
  · have hmem : newline ∈ tunnelSubnetPrefix ++ (front ++ digits) := by simp [hnewline]
    constructor
    · exact fun hvalid => absurd hmem (plain_of_validTunnelIp hvalid).1.line
    · exact fun hagrees => absurd hmem hagrees.1

theorem exists_port_iff (h : isPort port) :
    (∃ listenPort : UInt16, listenPort ≠ 0 ∧ port = write listenPort.toNat) ↔ newline ∉ port := by
  constructor
  · rintro ⟨listenPort, -, rfl⟩
    exact (plain_write listenPort.toNat).line
  · intro hline
    obtain ⟨front, digits, rfl, -, hnil | hnewline, hdigits, hbound⟩ := isPort_cases h
    · rw [hnil, nil_append]
      have hvalue : (UInt16.ofNat (read digits)).toNat = read digits := by
        rw [UInt16.toNat_ofNat']
        omega
      refine ⟨UInt16.ofNat (read digits), ?_, ?_⟩
      · intro hzero
        rw [hzero] at hvalue
        have hspelled := write_read_portLine hdigits
        rw [← hvalue] at hspelled
        rw [← hspelled] at hdigits
        exact absurd hdigits (by decide)
      · rw [hvalue, write_read_portLine hdigits]
    · exact absurd (mem_append_left digits hnewline) hline

/-! ## Codes of the Mac -/

structure Exchangeable (key host port mac win : Bytes) : Prop where
  key : newline ∉ key ∧ key.getD 42 0 ∈ keyEnds
  host : HostAgrees host
  port : newline ∉ port
  mac : newline ∉ mac ∧ plainOctet (mac.drop tunnelSubnetPrefix.length)
  win : newline ∉ win ∧ plainOctet (win.drop tunnelSubnetPrefix.length)

theorem dieUnless_bind_ok {accepted : Bool} {text : Bytes} {α : Type} {next : Unit → Died α}
    {result : α} :
    (dieUnless accepted text >>= next) = .ok result ↔ accepted ∧ next () = .ok result := by
  cases accepted with
  | true =>
    rw [dieUnless, if_pos rfl]
    exact (and_iff_right rfl).symm
  | false =>
    constructor
    · intro h
      cases h
    · rintro ⟨h, -⟩
      cases h

variable {key host port mac win code : Bytes}

theorem renderServerCode_ok_iff :
    renderServerCode key host port mac win = .ok code ↔
      isWgKey key ∧ isEndpointHost host ∧ isPort port ∧ isTunnelIp mac ∧ isTunnelIp win ∧
      mac ≠ win ∧ code = tagged "SCST1" (lines
        [("k", key), ("e", host), ("p", port), ("s", mac), ("c", win)]) := by
  have hkey : ascii "k=" = ascii "k" ++ [equalsSign] := by decide
  have hhost : ascii "\ne=" = newline :: (ascii "e" ++ [equalsSign]) := by decide
  have hport : ascii "\np=" = newline :: (ascii "p" ++ [equalsSign]) := by decide
  have hmac : ascii "\ns=" = newline :: (ascii "s" ++ [equalsSign]) := by decide
  have hwin : ascii "\nc=" = newline :: (ascii "c" ++ [equalsSign]) := by decide
  have hbody : ascii "k=" ++ key ++ ascii "\ne=" ++ host ++ ascii "\np=" ++ port ++
      ascii "\ns=" ++ mac ++ ascii "\nc=" ++ win =
      lines [("k", key), ("e", host), ("p", port), ("s", mac), ("c", win)] := by
    rw [hkey, hhost, hport, hmac, hwin]
    simp [lines_cons_cons, lines_singleton, field]
  have htag : ascii "SCST1:" = ascii "SCST1" ++ [colon] := by decide
  simp only [renderServerCode, dieUnless_bind_ok, hbody, b64urlEncode_eq, htag, tagged,
    Except.ok.injEq, decide_eq_true_iff, @eq_comm _ code]

/-- Windows reads a code of the Mac, and reads it as it was meant, exactly if the
arguments agree. -/
theorem server_code_accepted_iff (key host port mac win code : Bytes) (out : ServerDescriptor)
    (h : renderServerCode key host port mac win = .ok code) :
    (∃ listenPort : UInt16, port = write listenPort.toNat ∧
      decodeServer code out = ⟨true, ⟨key, host, listenPort, mac, win⟩, ""⟩) ↔
      Exchangeable key host port mac win := by
  obtain ⟨hkey, hhost, hport, hmac, hwin, hdistinct, rfl⟩ := renderServerCode_ok_iff.mp h
  constructor
  · rintro ⟨listenPort, hspelled, hdecode⟩
    have haccepted := congrArg Decoded.accepted hdecode
    have hread := assign_accepted haccepted
    rw [decodeServer] at hdecode
    rw [hdecode] at hread
    obtain ⟨hvalid, -⟩ := readServer_ok_iff.mp hread
    exact {
      key := (validWgKey_iff_of_isWgKey hkey).mp hvalid.key
      host := (validEndpointHost_iff hhost).mp hvalid.host
      port := (exists_port_iff hport).mp ⟨listenPort, hvalid.port, hspelled⟩
      mac := (validTunnelIp_iff_of_isTunnelIp hmac).mp hvalid.mac
      win := (validTunnelIp_iff_of_isTunnelIp hwin).mp hvalid.win }
  · intro hagrees
    obtain ⟨listenPort, hpos, rfl⟩ := (exists_port_iff hport).mpr hagrees.port
    have hvalid : ServerDescriptor.Valid ⟨key, host, listenPort, mac, win⟩ := {
      key := (validWgKey_iff_of_isWgKey hkey).mpr hagrees.key
      host := (validEndpointHost_iff hhost).mpr hagrees.host
      port := hpos
      mac := (validTunnelIp_iff_of_isTunnelIp hmac).mpr hagrees.mac
      win := (validTunnelIp_iff_of_isTunnelIp hwin).mpr hagrees.win
      distinct := hdistinct }
    refine ⟨listenPort, rfl, ?_⟩
    have hread := readServer_ok_iff.mpr ⟨hvalid, rfl⟩
    rw [serverBody_eq] at hread
    rw [decodeServer]
    exact congrArg (assign · out) hread

def sampleCode (host : Bytes) : Bytes :=
  tagged "SCST1" (lines [("k", sampleServer.publicKey), ("e", host), ("p", defaultListenPort),
    ("s", defaultMacIp), ("c", defaultWinIp)])

theorem renderServerCode_sample (h : isEndpointHost host) :
    renderServerCode sampleServer.publicKey host defaultListenPort defaultMacIp defaultWinIp =
      .ok (sampleCode host) :=
  renderServerCode_ok_iff.mpr ⟨by decide +kernel, h, by decide, by decide +kernel,
    by decide +kernel, by decide, rfl⟩

theorem server_code_accepted_iff_sample :
    ∃ listenPort : UInt16, defaultListenPort = write listenPort.toNat ∧
      decodeServer (sampleCode (ascii "203.0.113.7")) emptyServer =
        ⟨true, ⟨sampleServer.publicKey, ascii "203.0.113.7", listenPort, defaultMacIp,
          defaultWinIp⟩, ""⟩ :=
  (server_code_accepted_iff _ _ _ _ _ _ emptyServer
    (renderServerCode_sample (by decide +kernel))).mpr {
      key := by decide +kernel
      host := by
        rw [HostAgrees, if_pos (by decide +kernel)]
        decide +kernel
      port := by decide
      mac := by decide +kernel
      win := by decide +kernel }

/-- The script takes an octet with a zero in front of a digit, Windows does not. -/
theorem server_code_rejected :
    renderServerCode sampleServer.publicKey (ascii "203.0.113.07") defaultListenPort defaultMacIp
        defaultWinIp = .ok (sampleCode (ascii "203.0.113.07")) ∧
      decodeServer (sampleCode (ascii "203.0.113.07")) emptyServer =
        ⟨false, emptyServer, "invalid endpoint host"⟩ := by
  refine ⟨renderServerCode_sample (by decide +kernel), ?_⟩
  decide +kernel

/-! ## Codes of the Windows side -/

theorem substitution_payload (raw : Bytes) :
    substitution (base64urlEncode raw) = base64urlEncode raw := by
  apply substitution_eq_self
  · exact fun hmem => alphabet_url.terminator (mem_base64urlEncode hmem)
  · intro hlast
    exact newline_notMem_urlAlphabet (mem_base64urlEncode (mem_of_getLast? hlast))

theorem map_toStd_payload (raw : Bytes) :
    (base64urlEncode raw ++ List.replicate ((3 - raw.length % 3) % 3) equalsSign).map toStd =
      b64Encode stdAlphabet true raw := by
  have hmap : ((ofBytes raw).map (digitChar urlAlphabet)).map toStd =
      (ofBytes raw).map (digitChar stdAlphabet) := by
    rw [map_map]
    exact map_congr_left fun digit _ => toStd_digitChar digit
  rw [base64urlEncode, b64Encode_pad, b64Encode_eq_map, b64Encode_eq_map, map_append, hmap,
    map_replicate]
  rfl

section

variable {base64Decode : Bytes → Option Bytes}
  (hdecode : ∀ raw, base64Decode (b64Encode stdAlphabet true raw) = some raw)

include hdecode

theorem b64urlDecode_encode (raw : Bytes) :
    b64urlDecode base64Decode (base64urlEncode raw) = some raw := by
  have hlength : (base64urlEncode raw).length = (4 * raw.length + 2) / 3 := by
    rw [base64urlEncode, b64Encode_eq_map, length_map, length_ofBytes]
  have hpadded := congrArg base64Decode (map_toStd_payload raw)
  rw [hdecode] at hpadded
  rw [b64urlDecode, substitution_payload, hlength]
  obtain hrest | hrest | hrest :
      raw.length % 3 = 0 ∨ raw.length % 3 = 1 ∨ raw.length % 3 = 2 := by omega
  · have hfour : (4 * raw.length + 2) / 3 % 4 = 0 := by omega
    have hnone : List.replicate ((3 - 0) % 3) equalsSign = [] := rfl
    rw [hrest, hnone, append_nil] at hpadded
    rw [hfour]
    exact hpadded
  · have hfour : (4 * raw.length + 2) / 3 % 4 = 2 := by omega
    rw [hrest] at hpadded
    rw [hfour]
    exact hpadded
  · have hfour : (4 * raw.length + 2) / 3 % 4 = 3 := by omega
    rw [hrest] at hpadded
    rw [hfour]
    exact hpadded

end

theorem sedField_field {index : Nat} {key : String} {value body : Bytes}
    (h : (Text.lines newline body)[index]? = some (field key value)) :
    sedField index key body = value := by
  have hvalue := stripPrefix_append (ascii key ++ [equalsSign]) value
  rw [sedField, h, Option.bind_some, field, hvalue]
  rfl

section

variable {d : ClientDescriptor} (h : d.Valid)

include h

theorem zero_notMem_clientBody : 0 ∉ clientBody d := by
  obtain ⟨v, hparse, -⟩ := validTunnelIp_iff.mp h.win
  have hkey : 0 ∉ d.publicKey := by
    intro hmem
    rcases (validWgKey_iff.mp h.key).mem 0 hmem with hmem | hmem
    · exact alphabet_std.terminator hmem
    · exact absurd hmem (by decide)
  have hwin : 0 ∉ d.winIp := fun hmem => absurd (parseIpv4_chars hparse 0 hmem) (by decide)
  have hnames : 0 ∉ ascii "k" ∧ 0 ∉ ascii "c" := by decide
  have hsigns : (0 : UInt8) ≠ equalsSign ∧ (0 : UInt8) ≠ newline := by decide
  simp [clientBody, field, hkey, hwin, hnames, hsigns]

theorem clientBody_getLast : (clientBody d).getLast? ≠ some newline := by
  obtain ⟨hplain, -⟩ := plain_of_validTunnelIp h.win
  have hbody : clientBody d =
      field "k" d.publicKey ++ [newline] ++ (ascii "c" ++ [equalsSign]) ++ d.winIp := by
    simp [clientBody, field]
  rw [hbody, List.getLast?_append_of_ne_nil _ hplain.nonempty]
  exact fun hmem => hplain.line (mem_of_getLast? hmem)

theorem newline_notMem_clientFields :
    newline ∉ field "k" d.publicKey ∧ newline ∉ field "c" d.winIp :=
  ⟨newline_notMem_field (by decide) (plain_of_validWgKey h.key).1.line,
    newline_notMem_field (by decide) (plain_of_validTunnelIp h.win).1.line⟩

theorem lines_clientBody :
    Text.lines newline (clientBody d) = [field "k" d.publicKey, field "c" d.winIp] := by
  obtain ⟨hkey, hwin⟩ := newline_notMem_clientFields h
  have hne : field "c" d.winIp ≠ [] := by simp [field]
  have hbody : clientBody d = field "k" d.publicKey ++ newline :: field "c" d.winIp := by
    simp [clientBody]
  rw [hbody, Text.lines_line_append hkey, Text.lines_of_notMem hwin, if_neg hne]

theorem count_clientBody : (clientBody d).count newline = 1 := by
  obtain ⟨hkey, hwin⟩ := newline_notMem_clientFields h
  rw [clientBody, count_append, count_append, count_eq_zero_of_not_mem hkey,
    count_eq_zero_of_not_mem hwin]
  rfl

end

theorem isTunnelIp_hostSpelling {host : Nat} (hlow : 1 ≤ host) (hhigh : host ≤ 254) :
    isTunnelIp (hostSpelling host) := by
  have hline : octetLine (write host) := by
    have hlength : (write host).length ≤ 3 := length_write_le (by decide) (by omega)
    have hpos := length_pos_of_ne_nil (write_ne_nil host)
    simp only [octetLine, write_all, Bool.true_and, Bool.and_eq_true, decide_eq_true_iff]
    exact ⟨hpos, hlength⟩
  apply isTunnelIp_digits hline
  · rwa [read_write]
  · rwa [read_write]

/-- The script reads every code of the Windows side whose address is spelled as usual and
is not the Mac's own. -/
theorem client_code_accepted (base64Decode : Bytes → Option Bytes)
    (hdecode : ∀ raw, base64Decode (b64Encode stdAlphabet true raw) = some raw)
    (settings : Option Bytes) (d : ClientDescriptor) (code : Bytes)
    (h : encodeClient d = .ok code) (hspelled : stripZeros d.winIp = d.winIp)
    (hmac : d.winIp ≠ setting settings "mac_ip" defaultMacIp) :
    decodeClientCode base64Decode settings code = .ok (d.publicKey, d.winIp) := by
  obtain ⟨hvalid, rfl⟩ := encodeClient_ok_iff.mp h
  obtain ⟨host, hlow, hhigh, hhost⟩ := exists_host hvalid.win
  obtain ⟨hkey, hkeyLength⟩ := plain_of_validWgKey hvalid.key
  obtain ⟨hwin, hwinLength⟩ := plain_of_validTunnelIp hvalid.win
  have hcode : stripPrefix (ascii "SCCL1:") (tagged "SCCL1" (clientBody d)) =
      some (base64urlEncode (clientBody d)) := stripPrefix_append _ _
  have hbody : clientBody d ≠ [] := by simp [clientBody]
  have hpayload : base64urlEncode (clientBody d) ≠ [] := base64urlEncode_ne_nil hbody
  have hline : newline ∉ base64urlEncode (clientBody d) := fun hmem =>
    newline_notMem_urlAlphabet (mem_base64urlEncode hmem)
  have hshort : (base64urlEncode (clientBody d)).length ≤ 1024 := by
    have hlength := length_base64urlEncode (clientBody d)
    simp (disch := decide) only [clientBody, length_append, length_singleton,
      length_field] at hlength ⊢
    omega
  have hchars : payloadLine (base64urlEncode (clientBody d)) := by
    simp only [payloadLine, hpayload, ne_eq, not_false_eq_true, decide_true, Bool.true_and,
      all_eq_true, contains_iff_mem]
    exact fun c hc => mem_base64urlEncode hc
  have hwinOk : isTunnelIp d.winIp := by
    rw [← hspelled, hhost]
    exact isTunnelIp_hostSpelling hlow hhigh
  have hkeyOk : isWgKey d.publicKey := by
    rw [isWgKey, grepQuiet_single hkey.nonempty hkey.line]
    exact wgKeyLine_of_canonical (validWgKey_iff.mp hvalid.key)
  have hsubst := substitution_eq_self (zero_notMem_clientBody hvalid) (clientBody_getLast hvalid)
  have hfirst : sedField 0 "k" (clientBody d) = d.publicKey :=
    sedField_field (by rw [lines_clientBody hvalid]; rfl)
  have hsecond : sedField 1 "c" (clientBody d) = d.winIp :=
    sedField_field (by rw [lines_clientBody hvalid]; rfl)
  rw [decodeClientCode, hcode]
  simp only [dieUnless_bind_ok, b64urlDecode_encode hdecode, hsubst, hfirst, hsecond,
    count_clientBody hvalid, grepQuiet_single hpayload hline, decide_eq_true_iff]
  exact ⟨hpayload, hshort, hchars, trivial, hkey.nonempty, hwin.nonempty, hkeyOk, hwinOk, hmac,
    trivial⟩

def standardDecode (text : Bytes) : Option Bytes :=
  if text = [] then some [] else b64Decode stdAlphabet true text

theorem standardDecode_encode (raw : Bytes) :
    standardDecode (b64Encode stdAlphabet true raw) = some raw := by
  rw [b64Encode_pad, b64Encode_eq_map]
  have hlength := length_ofBytes raw
  by_cases hraw : raw = []
  · rw [hraw]
    rfl
  · have hpos := length_pos_of_ne_nil hraw
    have hdigits : (ofBytes raw).map (digitChar stdAlphabet) ≠ [] := by
      apply ne_nil_of_length_pos
      rw [length_map]
      omega
    have hwhole : ((4 * raw.length + 2) / 3 + (3 - raw.length % 3) % 3) % 4 = 0 := by
      have hrest : raw.length % 3 = 0 ∨ raw.length % 3 = 1 ∨ raw.length % 3 = 2 := by omega
      rcases hrest with hrest | hrest | hrest <;> rw [hrest] <;> omega
    have hbody := dropPadding_append (equalsSign_notMem_digits (ofBytes raw))
      ((3 - raw.length % 3) % 3)
    rw [standardDecode, if_neg (by simp [hdigits]), b64Decode, if_pos rfl, hbody]
    dsimp only
    rw [if_neg, alphabet_std.b64DecodeBody_map, toBytes_ofBytes]
    simp only [append_eq_nil_iff, hdigits, false_and, length_append, length_map,
      length_replicate, hlength, hwhole, false_or, not_or]
    omega

theorem client_code_accepted_sample :
    decodeClientCode standardDecode none (tagged "SCCL1" (clientBody sampleClient)) =
      .ok (sampleClient.publicKey, sampleClient.winIp) :=
  client_code_accepted standardDecode standardDecode_encode none sampleClient _
    (encodeClient_ok_iff.mpr ⟨sampleClient_valid, rfl⟩) (by decide +kernel) (by decide)

end Scshr.Mac
