import Scshr.Mac.ConfParse
import Mathlib.Data.Bool.AllAny

/-! The configuration the script renders is accepted, with the values it was rendered
from. -/
namespace Scshr.Mac

open Common Lib Lib.Decimal Tunnel List

/-! ## Lines of the loop -/

section

variable {lowerRunes : Bytes → Bytes} {number : Nat} {raw : Bytes} {rest : List Bytes}
  {state : Parse}

theorem parseLines_blank (h : confLine raw = []) :
    parseLines lowerRunes number (raw :: rest) state =
      parseLines lowerRunes (number + 1) rest state := by
  rw [parseLines, if_pos h]

theorem parseLines_header (h : confLine raw = inside.header) :
    parseLines lowerRunes number (raw :: rest) state =
      parseLines lowerRunes (number + 1) rest (state.enter inside) := by
  have hline : parseLine lowerRunes state inside.header = .ok (state.enter inside) := by
    rw [parseLine, if_pos (head?_header inside)]
    cases inside <;> rfl
  have hne : inside.header ≠ [] := by cases inside <;> decide
  rw [parseLines, h, if_neg hne, hline]

theorem parseLines_entry (hline : confLine raw = raw) (hhead : raw.head? ≠ some bracket)
    (hentry : confEntry lowerRunes raw = some (key, val)) (hcurrent : state.current = some inside)
    (hfresh : dupKey inside key state.seenPeer ∉ state.seen) (hkey : key ∈ inside.keys)
    (hset : setField inside state.conf key val = .ok conf) :
    parseLines lowerRunes number (raw :: rest) state =
      parseLines lowerRunes (number + 1) rest
        { state with conf := conf, seen := dupKey inside key state.seenPeer :: state.seen } := by
  have hne : raw ≠ [] := by
    rintro rfl
    exact absurd (equalsSign_mem_of_confEntry hentry) (by simp)
  have hparse : parseLine lowerRunes state raw = .ok
      { state with conf := conf, seen := dupKey inside key state.seenPeer :: state.seen } := by
    rw [parseLine, if_neg hhead, parseEntry, hentry]
    simp only [hcurrent, if_neg hfresh, hkey, not_true, if_false, hset]
  rw [parseLines, hline, if_neg hne, hparse]

end

/-- A name the script writes in front of an equals sign, with the key it is read as. -/
structure Label (label key : Bytes) : Prop where
  trimmed : trimSpace label = label.dropLast
  lower : label.dropLast.map asciiLower = key
  low : label.dropLast.all (· < 128)
  plain : equalsSign ∉ label ∧ hash ∉ label
  front : ∃ c, label.head? = some c ∧ Solid c ∧ c ≠ bracket

/-- A value the script writes behind it. -/
structure Value (value : Bytes) : Prop where
  trimmed : Trimmed value
  plain : hash ∉ value

section

variable {lowerRunes : Bytes → Bytes} {label key value : Bytes}

theorem Label.head? (hlabel : Label label key) (value : Bytes) :
    ∃ c, (label ++ ascii "= " ++ value).head? = some c ∧ Solid c ∧ c ≠ bracket := by
  obtain ⟨c, hhead, hc⟩ := hlabel.front
  refine ⟨c, ?_, hc⟩
  rw [append_assoc, List.head?_append, hhead]
  rfl

theorem Label.confLine (hlabel : Label label key) (hvalue : Value value) :
    confLine (label ++ ascii "= " ++ value) = label ++ ascii "= " ++ value := by
  obtain ⟨c, hhead, hc, -⟩ := hlabel.head? value
  obtain ⟨d, hlast, hd⟩ := hvalue.trimmed.back
  have htrimmed : Trimmed (label ++ ascii "= " ++ value) := by
    refine ⟨⟨c, hhead, hc⟩, d, ?_, hd⟩
    rw [List.getLast?_append, hlast]
    rfl
  apply htrimmed.confLine
  have hmiddle : hash ∉ ascii "= " := by decide
  simp [hlabel.plain.2, hmiddle, hvalue.plain]

theorem Label.confEntry (hlabel : Label label key) (hvalue : Value value) :
    confEntry lowerRunes (label ++ ascii "= " ++ value) = some (key, value) := by
  have hcut : cutEquals (label ++ equalsSign :: 32 :: value) = some (label, 32 :: value) :=
    cutEquals_append hlabel.plain.1
  have htext : label ++ ascii "= " ++ value = label ++ equalsSign :: 32 :: value := by
    rw [append_assoc]
    rfl
  rw [Mac.confEntry, htext, hcut, Option.map_some]
  simp only [hvalue.trimmed.trimSpace_cons, hlabel.trimmed, lowerText, if_pos hlabel.low,
    hlabel.lower]

end

theorem label_privateKey : Label (ascii "PrivateKey ") (ascii "privatekey") :=
  ⟨by decide, by decide, by decide, by decide, 80, by decide⟩

theorem label_address : Label (ascii "Address ") (ascii "address") :=
  ⟨by decide, by decide, by decide, by decide, 65, by decide⟩

theorem label_listenPort : Label (ascii "ListenPort ") (ascii "listenport") :=
  ⟨by decide, by decide, by decide, by decide, 76, by decide⟩

theorem label_publicKey : Label (ascii "PublicKey ") (ascii "publickey") :=
  ⟨by decide, by decide, by decide, by decide, 80, by decide⟩

theorem label_allowedIps : Label (ascii "AllowedIPs ") (ascii "allowedips") :=
  ⟨by decide, by decide, by decide, by decide, 65, by decide⟩

theorem value_of_chars (hne : value ≠ []) (h : ∀ c ∈ value, Solid c ∧ c ≠ hash) : Value value where
  trimmed := by
    refine ⟨⟨value.head hne, List.head?_eq_some_head hne, (h _ (head_mem hne)).1⟩,
      value.getLast hne, List.getLast?_eq_some_getLast hne, (h _ (getLast_mem hne)).1⟩
  plain := fun hmem => (h hash hmem).2 rfl

theorem value_write (number : Nat) : Value (write number) := by
  apply value_of_chars (write_ne_nil number)
  intro c hc
  have hdigit := all_eq_true.mp (write_all number) c hc
  refine ⟨solid_of_isDigit hdigit, ?_⟩
  rintro rfl
  exact absurd hdigit (by decide)

theorem CanonicalKey.value (h : CanonicalKey key) : Value key := by
  have halphabet : ∀ c ∈ equalsSign :: stdAlphabet, Solid c ∧ c ≠ hash := by
    rw [stdAlphabet_eq]
    exact all_iff_forall_prop.mp (by decide +kernel)
  apply value_of_chars
  · rintro rfl
    exact absurd h.length (by decide)
  · intro c hc
    rcases h.mem c hc with hc | rfl
    · exact halphabet c (mem_cons_of_mem _ hc)
    · exact halphabet equalsSign mem_cons_self

theorem value_host (host : Nat) : Value (hostSpelling host ++ ascii "/32") := by
  have hliteral : ∀ c ∈ ascii "10.77.77." ++ ascii "/32", Solid c ∧ c ≠ hash :=
    all_iff_forall_prop.mp (by decide +kernel)
  apply value_of_chars (by simp [hostSpelling, ascii])
  intro c hc
  simp only [hostSpelling, mem_append] at hc
  rcases hc with (hc | hc) | hc
  · exact hliteral c (mem_append_left _ hc)
  · have hdigit := all_eq_true.mp (write_all host) c hc
    refine ⟨solid_of_isDigit hdigit, ?_⟩
    rintro rfl
    exact absurd hdigit (by decide)
  · exact hliteral c (mem_append_right _ hc)

theorem atoi_write (h : port ≤ 65535) : atoi (write port) = some (port : Int) := by
  have hsign : splitSign (write port) = (false, write port) := by
    cases hwrite : write port with
    | nil => exact absurd hwrite (write_ne_nil port)
    | cons c rest =>
      have hdigit : isDigit c := all_eq_true.mp (write_all port) c (by simp [hwrite])
      exact splitSign_digit hdigit rest
  rw [atoi, hsign]
  simp only [write_all, Bool.not_true, Bool.false_eq_true, or_false, if_neg (write_ne_nil port),
    read_write, if_false]
  rw [if_neg (by omega)]

section

variable {lowerRunes : Bytes → Bytes} {number mac port : Nat} {rest : List Bytes} {state : Parse}
  {privateKey : Bytes}

theorem parseLines_rendered (hlabel : Label label key) (hvalue : Value value)
    (hcurrent : state.current = some inside)
    (hfresh : dupKey inside key state.seenPeer ∉ state.seen) (hkey : key ∈ inside.keys)
    (hset : setField inside state.conf key value = .ok conf) :
    parseLines lowerRunes number ((label ++ ascii "= " ++ value) :: rest) state =
      parseLines lowerRunes (number + 1) rest
        { state with conf := conf, seen := dupKey inside key state.seenPeer :: state.seen } := by
  obtain ⟨c, hhead, -, hbracket⟩ := hlabel.head? value
  apply parseLines_entry (hlabel.confLine hvalue) _ (hlabel.confEntry hvalue) hcurrent hfresh hkey
    hset
  rw [hhead]
  exact fun heq => hbracket (Option.some_inj.mp heq)

def interfaceSeen : List Bytes :=
  [dupKey .interface (ascii "listenport") 0, dupKey .interface (ascii "address") 0,
    dupKey .interface (ascii "privatekey") 0]

def interfaceParse (privateKey : Bytes) (mac port : Nat) : Parse where
  conf := {
    privateKey := privateKey
    address := some (tunnelHost mac)
    listenPort := UInt16.ofNat port }
  current := some .interface
  seenInterface := 1
  seen := interfaceSeen

theorem confLine_ascii (chars : List Char)
    (h : confLine (chars.map fun char => UInt8.ofNat char.toNat) = []) :
    confLine (ascii (String.ofList chars)) = [] := by
  rwa [ascii_ofList]

theorem parseLines_interface (hprivate : CanonicalKey privateKey) (hmac : 1 ≤ mac ∧ mac ≤ 254)
    (hport : 1 ≤ port ∧ port ≤ 65535) :
    parseLines lowerRunes 1
        (interfaceLines privateKey (hostSpelling mac) (write port) ++ rest) {} =
      parseLines lowerRunes 7 rest (interfaceParse privateKey mac port) := by
  obtain ⟨raw, hraw⟩ := decodeKey_ok_of_canonical hprivate
  have hhost : hostInTunnel (hostSpelling mac ++ ascii "/32") = .ok (tunnelHost mac) :=
    hostInTunnel_ok_iff.mpr ⟨mac, hmac.1, hmac.2, rfl, rfl⟩
  have hatoi := atoi_write hport.2
  have hheader : confLine (ascii "[Interface]") = ConfSection.interface.header := by decide +kernel
  have hsetKey : setField .interface {} (ascii "privatekey") privateKey =
      .ok { privateKey := privateKey } := by
    rw [setField, setInterface, if_pos rfl, hraw]
  have hsetAddress : setField .interface { privateKey := privateKey } (ascii "address")
      (hostSpelling mac ++ ascii "/32") =
        .ok { privateKey := privateKey, address := some (tunnelHost mac) } := by
    rw [setField, setInterface, if_neg (by decide), if_pos rfl, hhost]
  have hsetPort : setField .interface
      { privateKey := privateKey, address := some (tunnelHost mac) } (ascii "listenport")
      (write port) = .ok (interfaceParse privateKey mac port).conf := by
    rw [setField, setInterface, if_neg (by decide), if_neg (by decide), if_pos rfl, hatoi]
    dsimp only
    rw [if_neg (by omega)]
    rfl
  have hfreshAddress : dupKey .interface (ascii "address") 0 ∉
      [dupKey .interface (ascii "privatekey") 0] := by decide +kernel
  have hfreshPort : dupKey .interface (ascii "listenport") 0 ∉
      [dupKey .interface (ascii "address") 0, dupKey .interface (ascii "privatekey") 0] := by
    decide +kernel
  simp only [interfaceLines, cons_append, nil_append]
  rw [parseLines_blank (confLine_ascii _ (by decide)),
    parseLines_blank (confLine_ascii _ (by decide)), parseLines_header hheader]
  have hkeyLine : ascii "PrivateKey = " ++ privateKey =
      ascii "PrivateKey " ++ ascii "= " ++ privateKey := rfl
  have haddressLine : ascii "Address = " ++ hostSpelling mac ++ ascii "/32" =
      ascii "Address " ++ ascii "= " ++ (hostSpelling mac ++ ascii "/32") := rfl
  have hportLine : ascii "ListenPort = " ++ write port =
      ascii "ListenPort " ++ ascii "= " ++ write port := rfl
  rw [hkeyLine, haddressLine, hportLine,
    parseLines_rendered label_privateKey hprivate.value rfl (by decide +kernel) (by decide +kernel)
      hsetKey,
    parseLines_rendered label_address (value_host mac) rfl hfreshAddress (by decide +kernel)
      hsetAddress,
    parseLines_rendered label_listenPort (value_write port) rfl hfreshPort (by decide +kernel)
      hsetPort]
  rfl

def peerParse (privateKey : Bytes) (mac port : Nat) (publicKey : Bytes) (win : Nat) : Parse where
  conf := { (interfaceParse privateKey mac port).conf with
    peerPublicKey := publicKey
    peerAllowedIp := some (tunnelHost win) }
  current := some .peer
  seenInterface := 1
  seenPeer := 1
  seen := dupKey .peer (ascii "allowedips") 1 :: dupKey .peer (ascii "publickey") 1 :: interfaceSeen

theorem parseLines_peer (hpublic : CanonicalKey publicKey) (hwin : 1 ≤ win ∧ win ≤ 254) :
    parseLines lowerRunes 7 (peerLines publicKey (hostSpelling win) ++ [[]])
      (interfaceParse privateKey mac port) =
        .ok (peerParse privateKey mac port publicKey win) := by
  obtain ⟨raw, hraw⟩ := decodeKey_ok_of_canonical hpublic
  have hhost : hostInTunnel (hostSpelling win ++ ascii "/32") = .ok (tunnelHost win) :=
    hostInTunnel_ok_iff.mpr ⟨win, hwin.1, hwin.2, rfl, rfl⟩
  have hheader : confLine (ascii "[Peer]") = ConfSection.peer.header := by decide +kernel
  have hcomma : comma ∉ hostSpelling win ++ ascii "/32" := by
    have hliteral : comma ∉ ascii "10.77.77." ∧ comma ∉ ascii "/32" := by decide +kernel
    have hdigits : comma ∉ write win := by
      intro hmem
      exact absurd (all_eq_true.mp (write_all win) comma hmem) (by decide)
    simp [hostSpelling, hliteral, hdigits]
  have hsetKey : ∀ conf : Conf, setField .peer conf (ascii "publickey") publicKey =
      .ok { conf with peerPublicKey := publicKey } := by
    intro conf
    rw [setField, setPeer, if_pos rfl, hraw]
  have hsetAllowed : ∀ conf : Conf, setField .peer conf (ascii "allowedips")
      (hostSpelling win ++ ascii "/32") =
        .ok { conf with peerAllowedIp := some (tunnelHost win) } := by
    intro conf
    rw [setField, setPeer, if_neg (by decide), if_pos rfl, Text.splitOn_of_notMem hcomma]
    dsimp only
    rw [(value_host win).trimmed.trimSpace, hhost]
  have hfreshKey : dupKey .peer (ascii "publickey") 1 ∉ interfaceSeen := by decide +kernel
  have hfreshAllowed : dupKey .peer (ascii "allowedips") 1 ∉
      dupKey .peer (ascii "publickey") 1 :: interfaceSeen := by decide +kernel
  have hkeyLine : ascii "PublicKey = " ++ publicKey =
      ascii "PublicKey " ++ ascii "= " ++ publicKey := rfl
  have hallowedLine : ascii "AllowedIPs = " ++ hostSpelling win ++ ascii "/32" =
      ascii "AllowedIPs " ++ ascii "= " ++ (hostSpelling win ++ ascii "/32") := rfl
  simp only [peerLines, cons_append, nil_append]
  rw [parseLines_blank (by decide +kernel), parseLines_header hheader, hkeyLine, hallowedLine,
    parseLines_rendered label_publicKey hpublic.value rfl hfreshKey (by decide +kernel)
      (hsetKey _),
    parseLines_rendered label_allowedIps (value_host win) rfl hfreshAllowed (by decide +kernel)
      (hsetAllowed _),
    parseLines_blank (by decide +kernel), parseLines]
  rfl

end

def renderedConf (privateKey : Bytes) (mac port : Nat) : Option (Bytes × Nat) → Conf
  | none => (interfaceParse privateKey mac port).conf
  | some (publicKey, win) => { (interfaceParse privateKey mac port).conf with
      hasPeer := true
      peerPublicKey := publicKey
      peerAllowedIp := some (tunnelHost win) }

theorem CanonicalKey.ne_nil (h : CanonicalKey key) : key ≠ [] := by
  rintro rfl
  exact absurd h.length (by decide)

section

variable {lowerRunes : Bytes → Bytes} {privateKey : Bytes} {mac port : Nat}

theorem ofNat_port_ne_zero (hport : 1 ≤ port ∧ port ≤ 65535) : UInt16.ofNat port ≠ 0 := by
  intro hzero
  have hnat := congrArg UInt16.toNat hzero
  rw [UInt16.toNat_ofNat', Nat.mod_eq_of_lt (by omega)] at hnat
  exact absurd hnat (Nat.ne_of_gt hport.1)

theorem newline_notMem_write (value : Nat) : newline ∉ write value := by
  intro hmem
  exact absurd (all_eq_true.mp (write_all value) newline hmem) (by decide)

theorem newline_notMem_hostSpelling (host : Nat) : newline ∉ hostSpelling host := by
  have hliteral : newline ∉ ascii "10.77.77." := by decide
  simp [hostSpelling, hliteral, newline_notMem_write]

theorem newline_notMem_interface (hprivate : CanonicalKey privateKey) (mac port : Nat) :
    ∀ line ∈ interfaceLines privateKey (hostSpelling mac) (write port), newline ∉ line := by
  have hkey : newline ∉ ascii "PrivateKey = " := by decide
  have haddress : newline ∉ ascii "Address = " := by decide
  have hlength : newline ∉ ascii "/32" := by decide
  have hport : newline ∉ ascii "ListenPort = " := by decide
  simp only [interfaceLines, forall_mem_cons, mem_append, not_or]
  exact ⟨notMem_ascii _ (by decide), notMem_ascii _ (by decide), by decide,
    ⟨hkey, hprivate.newline_notMem⟩, ⟨⟨haddress, newline_notMem_hostSpelling mac⟩, hlength⟩,
    ⟨hport, newline_notMem_write port⟩, by simp⟩

theorem newline_notMem_peer (hpublic : CanonicalKey publicKey) (win : Nat) :
    ∀ line ∈ peerLines publicKey (hostSpelling win), newline ∉ line := by
  have hkey : newline ∉ ascii "PublicKey = " := by decide
  have hallowed : newline ∉ ascii "AllowedIPs = " := by decide
  have hlength : newline ∉ ascii "/32" := by decide
  simp only [peerLines, forall_mem_cons, mem_append, not_or]
  exact ⟨by simp, by decide, ⟨hkey, hpublic.newline_notMem⟩,
    ⟨⟨hallowed, newline_notMem_hostSpelling win⟩, hlength⟩, by simp⟩

theorem parseConf_renderConf_none (hprivate : CanonicalKey privateKey)
    (hmac : 1 ≤ mac ∧ mac ≤ 254) (hport : 1 ≤ port ∧ port ≤ 65535) :
    parseConf lowerRunes (renderConf privateKey (hostSpelling mac) (write port) none) =
      .ok (renderedConf privateKey mac port none) := by
  have hfinish : finishConf (interfaceParse privateKey mac port) =
      .ok (renderedConf privateKey mac port none) := by
    simp [finishConf, interfaceParse, renderedConf, hprivate.ne_nil, ofNat_port_ne_zero hport]
  rw [parseConf, renderConf, append_nil,
    Text.splitOn_unlines (newline_notMem_interface hprivate mac port),
    parseLines_interface hprivate hmac hport, parseLines_blank (by decide +kernel), parseLines]
  exact hfinish

theorem parseConf_renderConf_some (hprivate : CanonicalKey privateKey) (hmac : 1 ≤ mac ∧ mac ≤ 254)
    (hport : 1 ≤ port ∧ port ≤ 65535) (hpublic : CanonicalKey publicKey)
    (hwin : 1 ≤ win ∧ win ≤ 254) (hdistinct : win ≠ mac) :
    parseConf lowerRunes (renderConf privateKey (hostSpelling mac) (write port)
      (some (publicKey, hostSpelling win))) =
        .ok (renderedConf privateKey mac port (some (publicKey, win))) := by
  have hother : tunnelHost win ≠ tunnelHost mac := by
    intro heq
    exact hdistinct ((tunnelHost_inj (by omega) (by omega)).mp heq)
  have hfinish : finishConf (peerParse privateKey mac port publicKey win) =
      .ok (renderedConf privateKey mac port (some (publicKey, win))) := by
    simp [finishConf, peerParse, interfaceParse, renderedConf, hprivate.ne_nil, hpublic.ne_nil,
      ofNat_port_ne_zero hport, hother]
  have hlines := forall_mem_append.mpr
    ⟨newline_notMem_interface hprivate mac port, newline_notMem_peer hpublic win⟩
  rw [parseConf, renderConf, Text.splitOn_unlines hlines, append_assoc,
    parseLines_interface hprivate hmac hport, parseLines_peer hpublic hwin]
  exact hfinish

end

/-- The parser fails closed, the document it leads to has the peer's address and no
other, and the script's configurations are accepted as they were meant. -/
theorem conf_fails_closed (lowerRunes : Bytes → Bytes) :
    (∀ text conf, parseConf lowerRunes text = .ok conf → Accepted lowerRunes text conf ∧
      ∃ document, uapi conf = .ok document ∧
        document.filter (ascii "allowed_ip=").isPrefixOf =
          if conf.hasPeer then
            conf.peerAllowedIp.toList.map fun addr =>
              ascii "allowed_ip=" ++ addr.text ++ ascii "/32"
          else []) ∧
    (∀ privateKey mac port, CanonicalKey privateKey → 1 ≤ mac ∧ mac ≤ 254 →
      1 ≤ port ∧ port ≤ 65535 →
      parseConf lowerRunes (renderConf privateKey (hostSpelling mac) (write port) none) =
        .ok {
          privateKey := privateKey
          address := some (tunnelHost mac)
          listenPort := UInt16.ofNat port } ∧
      ∀ publicKey win, CanonicalKey publicKey → 1 ≤ win ∧ win ≤ 254 → win ≠ mac →
        parseConf lowerRunes (renderConf privateKey (hostSpelling mac) (write port)
          (some (publicKey, hostSpelling win))) =
            .ok {
              privateKey := privateKey
              address := some (tunnelHost mac)
              listenPort := UInt16.ofNat port
              hasPeer := true
              peerPublicKey := publicKey
              peerAllowedIp := some (tunnelHost win) }) := by
  refine ⟨?_, ?_⟩
  · intro text conf hparse
    have haccepted := accepted_of_parseConf hparse
    obtain ⟨document, hdocument, hallowed⟩ := uapi_allowedIps haccepted.privateKey.1
      (fun hpeer => (haccepted.peerPublicKey hpeer).1)
    refine ⟨haccepted, document, hdocument, ?_⟩
    rw [hallowed]
    by_cases hpeer : conf.hasPeer
    · obtain ⟨host, -, -, -, haddr, -⟩ := haccepted.peerAllowedIp hpeer
      simp [hpeer, haddr]
    · simp [hpeer]
  · intro privateKey mac port hprivate hmac hport
    refine ⟨parseConf_renderConf_none hprivate hmac hport, ?_⟩
    intro publicKey win hpublic hwin hdistinct
    exact parseConf_renderConf_some hprivate hmac hport hpublic hwin hdistinct

def zeroKey : Bytes := b64Encode stdAlphabet true (List.replicate 32 0)

theorem conf_fails_closed_zeroKey :
    (parseConf id (renderConf zeroKey (hostSpelling 1) (write 51820) none)).toOption =
      some {
        privateKey := zeroKey
        address := some (tunnelHost 1)
        listenPort := 51820 } := by
  have hkey : CanonicalKey zeroKey := ⟨List.replicate 32 0, by simp, rfl⟩
  obtain ⟨hrendered, -⟩ := (conf_fails_closed id).2 zeroKey 1 51820 hkey (by decide) (by decide)
  exact congrArg Except.toOption hrendered

end Scshr.Mac
