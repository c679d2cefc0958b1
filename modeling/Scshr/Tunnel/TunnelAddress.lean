import Scshr.Tunnel.PairingCodec

/-! When two accepted spellings name one address.  `parse_ipv4` turns away a zero in front
of a single digit but not one in front of two, so an octet from 10 to 99 has two spellings,
and the checks for different addresses compare the spellings. -/
namespace Scshr.Tunnel

open Common Lib Lib.Decimal List

def stripZeros (ip : Bytes) : Bytes := dotted ((ip.splitOn dot).map strip)

/-! ## Spellings of an octet -/

variable {octet ip : Bytes} {host : Nat}

theorem Octet.dot_notMem (h : Octet octet) : dot ∉ octet := by
  intro hmem
  exact absurd (all_eq_true.mp h.digits dot hmem) (by decide)

theorem Octet.strip_eq (h : Octet octet) : strip octet = write (read octet) :=
  (write_read h.nonempty h.digits).symm

theorem octet_write (h : value ≤ 255) : Octet (write value) where
  digits := write_all value
  nonempty := write_ne_nil value
  short := length_write_le (by omega) (by omega)
  byte := by rwa [read_write]
  zeros := by
    rw [read_write]
    rintro ⟨hlong, hsmall⟩
    obtain ⟨c, -, -, hwrite⟩ := exists_write_of_lt hsmall
    rw [hwrite] at hlong
    exact Nat.lt_irrefl 1 hlong

/-! ## Spellings of an address -/

section

variable {s t : Bytes} {octets others : List Bytes}

theorem splitOn_dotted (h : ∀ octet ∈ octets, Octet octet) (hne : octets ≠ []) :
    (dotted octets).splitOn dot = octets :=
  splitOn_intercalate dot (fun octet hmem => (h octet hmem).dot_notMem) hne

theorem dotted_injective (hoctets : ∀ octet ∈ octets, Octet octet)
    (hothers : ∀ octet ∈ others, Octet octet) (hne : octets ≠ []) (hne' : others ≠ [])
    (h : dotted octets = dotted others) : octets = others := by
  rw [← splitOn_dotted hoctets hne, h, splitOn_dotted hothers hne']

theorem number_inj (hoctets : ∀ octet ∈ octets, Octet octet)
    (hothers : ∀ octet ∈ others, Octet octet) (hlength : octets.length = others.length)
    (h : number octets v = number others w) : v = w ∧ octets.map read = others.map read := by
  induction octets generalizing others v w with
  | nil =>
    cases others with
    | nil => exact ⟨h, rfl⟩
    | cons other rest => cases hlength
  | cons octet rest ih =>
    cases others with
    | nil => cases hlength
    | cons other rest' =>
      rw [forall_mem_cons] at hoctets hothers
      rw [number_cons, number_cons] at h
      obtain ⟨hhead, htail⟩ := ih hoctets.2 hothers.2 (Nat.succ.inj hlength) h
      have hbyte := hoctets.1.byte
      have hbyte' := hothers.1.byte
      rw [map_cons, map_cons, htail]
      exact ⟨by omega, by rw [show read octet = read other by omega]⟩

theorem number_eq (octets : List Bytes) (v : Nat) :
    number octets v = (octets.map read).foldl (fun v byte => v * 256 + byte) v := by
  rw [number, foldl_map]

theorem map_strip (h : ∀ octet ∈ octets, Octet octet) :
    octets.map strip = (octets.map read).map write := by
  rw [map_map]
  apply map_congr_left
  intro octet hmem
  exact (h octet hmem).strip_eq

theorem Quad.ne_nil (h : Quad s octets) : octets ≠ [] := by
  apply ne_nil_of_length_pos
  rw [h.four]
  decide

theorem Quad.strip_octets (h : Quad s octets) : ∀ octet ∈ octets.map strip, Octet octet := by
  intro octet hmem
  obtain ⟨source, hsource, rfl⟩ := mem_map.mp hmem
  rw [(h.octet source hsource).strip_eq]
  exact octet_write (h.octet source hsource).byte

theorem Quad.stripZeros_eq (h : Quad s octets) : stripZeros s = dotted (octets.map strip) := by
  rw [stripZeros, h.text, splitOn_dotted h.octet h.ne_nil]

theorem Quad.stripZeros_inj (hs : Quad s octets) (ht : Quad t others) :
    stripZeros s = stripZeros t ↔ octets.map read = others.map read := by
  rw [hs.stripZeros_eq, ht.stripZeros_eq]
  constructor
  · intro h
    have hstrip := dotted_injective hs.strip_octets ht.strip_octets
      (by simpa using hs.ne_nil) (by simpa using ht.ne_nil) h
    rw [map_strip hs.octet, map_strip ht.octet] at hstrip
    exact map_injective_iff.mpr (fun _ _ => write_injective) hstrip
  · intro h
    rw [map_strip hs.octet, map_strip ht.octet, h]

end

theorem parseIpv4_eq_iff (hs : parseIpv4 s = some v) (ht : parseIpv4 t = some w) :
    parseIpv4 s = parseIpv4 t ↔ stripZeros s = stripZeros t := by
  obtain ⟨octets, hquad, hv⟩ := exists_quad hs
  obtain ⟨others, hquad', hw⟩ := exists_quad ht
  rw [hquad.stripZeros_inj hquad', hs, ht, Option.some_inj, ← UInt32.toNat_inj, hv, hw]
  constructor
  · intro h
    exact (number_inj hquad.octet hquad'.octet (hquad.four.trans hquad'.four.symm) h).2
  · intro h
    rw [number_eq, number_eq, h]

/-! ## The hosts of the tunnel -/

def hostSpelling (host : Nat) : Bytes := ascii "10.77.77." ++ write host

theorem hostSpelling_quad (h : host ≤ 255) :
    Quad (hostSpelling host) [write 10, write 77, write 77, write host] where
  four := rfl
  octet := by
    simp only [forall_mem_cons]
    exact ⟨octet_write (by decide), octet_write (by decide), octet_write (by decide),
      octet_write h, by simp⟩
  text := by
    rw [dotted_cons_cons, dotted_cons_cons, dotted_cons_cons, dotted_singleton]
    rfl

theorem map_read_hostSpelling (host : Nat) :
    [write 10, write 77, write 77, write host].map read = [10, 77, 77, host] := by
  simp only [map_cons, map_nil, read_write]

theorem validTunnelIp_hostSpelling (hlow : 1 ≤ host) (hhigh : host ≤ 254) :
    validTunnelIp (hostSpelling host) := by
  have hquad := hostSpelling_quad (Nat.le_succ_of_le hhigh)
  have hnumber : number [write 10, write 77, write 77, write host] 0 = 0x0A4D4D00 + host := by
    rw [number_eq, map_read_hostSpelling]
    simp only [foldl_cons, foldl_nil]
  apply validTunnelIp_iff.mpr
  refine ⟨_, hquad.parseIpv4, ?_⟩
  rw [UInt32.toNat_ofNat', hnumber]
  omega

theorem exists_host (h : validTunnelIp ip) :
    ∃ host, 1 ≤ host ∧ host ≤ 254 ∧ stripZeros ip = hostSpelling host := by
  obtain ⟨v, hparse, hlow, hhigh⟩ := validTunnelIp_iff.mp h
  obtain ⟨octets, hquad, hv⟩ := exists_quad hparse
  rw [hv] at hlow hhigh
  match octets, hquad with
  | [a, b, c, d], hquad =>
    have hoctet := hquad.octet
    simp only [forall_mem_cons] at hoctet
    obtain ⟨ha, hb, hc, hd, -⟩ := hoctet
    have hbytes := And.intro ha.byte (And.intro hb.byte (And.intro hc.byte hd.byte))
    rw [number_eq] at hlow hhigh
    simp only [map_cons, map_nil, foldl_cons, foldl_nil] at hlow hhigh
    have hread : [a, b, c, d].map read = [10, 77, 77, read d] := by
      simp only [map_cons, map_nil, List.cons.injEq, and_true]
      omega
    refine ⟨read d, by omega, by omega, ?_⟩
    rw [hquad.stripZeros_eq, map_strip hquad.octet, hread]
    exact (hostSpelling_quad hd.byte).text.symm

theorem stripZeros_hostSpelling (h : host ≤ 255) :
    stripZeros (hostSpelling host) = hostSpelling host := by
  have hquad := hostSpelling_quad h
  rw [hquad.stripZeros_eq, map_strip hquad.octet, map_read_hostSpelling]
  exact hquad.text.symm

/-! ## Accepted pairs -/

theorem validTunnelIp_eq_iff (h : validTunnelIp ip) (hother : validTunnelIp other) :
    parseIpv4 ip = parseIpv4 other ↔ stripZeros ip = stripZeros other := by
  obtain ⟨v, hparse, -⟩ := validTunnelIp_iff.mp h
  obtain ⟨w, hparse', -⟩ := validTunnelIp_iff.mp hother
  exact parseIpv4_eq_iff hparse hparse'

structure WindowsTunnelConfig.Valid (c : WindowsTunnelConfig) : Prop where
  privateKey : validWgKey c.privateKey
  peerPublicKey : validWgKey c.peerPublicKey
  win : validTunnelIp c.winIp
  host : validEndpointHost c.endpointHost
  port : c.endpointPort ≠ 0
  peer : validTunnelIp c.peerIp
  distinct : c.peerIp ≠ c.winIp

theorem renderWindowsConf_ok_iff :
    renderWindowsConf c = .ok text ↔ c.Valid ∧ text = windowsConf c := by
  unfold renderWindowsConf
  simp only [check_ok_iff, Bool.not_eq_true', Bool.not_eq_false]
  constructor
  · rintro ⟨hprivate, hpublic, hwin, hhost, hport, h⟩
    split at h
    · cases h
    · case h_2 hroute =>
      rw [check_ok_iff, Except.ok.injEq] at h
      obtain ⟨hdistinct, rfl⟩ := h
      exact ⟨⟨hprivate, hpublic, hwin, hhost, hport, validTunnelIp_of_routeAllowed hroute,
        hdistinct⟩, rfl⟩
  · rintro ⟨h, htext⟩
    refine ⟨h.privateKey, h.peerPublicKey, h.win, h.host, h.port, ?_⟩
    rw [routeAllowed_hostRoute h.peer, htext]
    exact if_neg h.distinct

def codeAddresses (code : Bytes) : Except String (Bytes × Bytes) :=
  (codeFields "SCST1" ["k", "e", "p", "s", "c"] code).map fun fields =>
    (fields.getD 3 [], fields.getD 4 [])

theorem codeAddresses_of_accepted (h : (decodeServer code out).accepted = true) :
    (decodeServer code out).out.Valid ∧
      codeAddresses code = .ok ((decodeServer code out).out.macIp,
        (decodeServer code out).out.winIp) := by
  obtain ⟨hvalid, hcode⟩ := readServer_ok_iff.mp (assign_accepted h)
  have hfields := codeFields_server hvalid
  rw [← hcode] at hfields
  refine ⟨hvalid, ?_⟩
  rw [codeAddresses, hfields]
  rfl

/-- The addresses of an accepted code or configuration differ exactly when their spellings
still do without leading zeros; each host has its usual spelling, and every other accepted one
has a leading zero. -/
theorem addresses_differ_iff (code : Bytes) (out : ServerDescriptor) (c : WindowsTunnelConfig)
    (ip : Bytes) :
    ((decodeServer code out).accepted = true →
      ∃ mac win, codeAddresses code = .ok (mac, win) ∧
        (parseIpv4 (decodeServer code out).out.macIp ≠
            parseIpv4 (decodeServer code out).out.winIp ↔
          stripZeros mac ≠ stripZeros win)) ∧
    (∀ text, renderWindowsConf c = .ok text →
      (parseIpv4 c.peerIp ≠ parseIpv4 c.winIp ↔ stripZeros c.peerIp ≠ stripZeros c.winIp)) ∧
    (∀ host, 1 ≤ host → host ≤ 254 → validTunnelIp (hostSpelling host) = true) ∧
    (validTunnelIp ip = true → ∃ host, 1 ≤ host ∧ host ≤ 254 ∧
      parseIpv4 ip = parseIpv4 (hostSpelling host) ∧
      (ip = hostSpelling host ↔ stripZeros ip = ip)) := by
  refine ⟨?_, ?_, ?_, ?_⟩
  · intro h
    obtain ⟨hvalid, haddresses⟩ := codeAddresses_of_accepted h
    exact ⟨_, _, haddresses, not_congr (validTunnelIp_eq_iff hvalid.mac hvalid.win)⟩
  · intro text h
    have hvalid := (renderWindowsConf_ok_iff.mp h).1
    exact not_congr (validTunnelIp_eq_iff hvalid.peer hvalid.win)
  · intro host hlow hhigh
    exact validTunnelIp_hostSpelling hlow hhigh
  · intro h
    obtain ⟨host, hlow, hhigh, hstrip⟩ := exists_host h
    refine ⟨host, hlow, hhigh, ?_, ?_⟩
    · apply (validTunnelIp_eq_iff h (validTunnelIp_hostSpelling hlow hhigh)).mpr
      rw [hstrip, stripZeros_hostSpelling (Nat.le_succ_of_le hhigh)]
    · rw [hstrip, eq_comm]

def sampleConf : WindowsTunnelConfig where
  privateKey := sampleServer.publicKey
  peerPublicKey := sampleServer.publicKey
  endpointHost := sampleServer.endpointHost

theorem sampleConf_valid : sampleConf.Valid where
  privateKey := sampleServer_valid.key
  peerPublicKey := sampleServer_valid.key
  win := sampleServer_valid.win
  host := sampleServer_valid.host
  port := by decide
  peer := sampleServer_valid.mac
  distinct := by decide

theorem addresses_differ_iff_sample :
    (∃ mac win, codeAddresses (tagged "SCST1" (serverBody sampleServer)) = .ok (mac, win) ∧
      (parseIpv4 (decodeServer (tagged "SCST1" (serverBody sampleServer)) emptyServer).out.macIp ≠
          parseIpv4
            (decodeServer (tagged "SCST1" (serverBody sampleServer)) emptyServer).out.winIp ↔
        stripZeros mac ≠ stripZeros win)) ∧
    (parseIpv4 sampleConf.peerIp ≠ parseIpv4 sampleConf.winIp ↔
      stripZeros sampleConf.peerIp ≠ stripZeros sampleConf.winIp) ∧
    validTunnelIp (hostSpelling 7) = true ∧
    ∃ host, 1 ≤ host ∧ host ≤ 254 ∧
      parseIpv4 sampleConf.winIp = parseIpv4 (hostSpelling host) ∧
      (sampleConf.winIp = hostSpelling host ↔
        stripZeros sampleConf.winIp = sampleConf.winIp) := by
  obtain ⟨hcode, hconf, hhost, hspelling⟩ :=
    addresses_differ_iff (tagged "SCST1" (serverBody sampleServer)) emptyServer sampleConf
      sampleConf.winIp
  have hread := readServer_ok_iff.mpr ⟨sampleServer_valid, rfl⟩
  refine ⟨hcode ?_, hconf _ (renderWindowsConf_ok_iff.mpr ⟨sampleConf_valid, rfl⟩),
    hhost 7 (by decide) (by decide), hspelling sampleConf_valid.win⟩
  rw [decodeServer, hread]
  rfl

def respelledServer : ServerDescriptor := { sampleServer with winIp := ascii "10.077.77.1" }

def respelledConf : WindowsTunnelConfig := { sampleConf with winIp := ascii "10.077.77.1" }

theorem respelledServer_valid : respelledServer.Valid where
  key := sampleServer_valid.key
  host := sampleServer_valid.host
  port := sampleServer_valid.port
  mac := sampleServer_valid.mac
  win := by decide +kernel
  distinct := by decide

theorem respelledConf_valid : respelledConf.Valid where
  privateKey := sampleServer_valid.key
  peerPublicKey := sampleServer_valid.key
  win := respelledServer_valid.win
  host := sampleServer_valid.host
  port := by decide
  peer := sampleServer_valid.mac
  distinct := by decide

theorem same_address_accepted :
    decodeServer (tagged "SCST1" (serverBody respelledServer)) emptyServer =
      ⟨true, respelledServer, ""⟩ ∧
    parseIpv4 respelledServer.macIp = parseIpv4 respelledServer.winIp ∧
    renderWindowsConf respelledConf = .ok (windowsConf respelledConf) ∧
    parseIpv4 respelledConf.peerIp = parseIpv4 respelledConf.winIp := by
  have hread := readServer_ok_iff.mpr ⟨respelledServer_valid, rfl⟩
  refine ⟨?_, by decide +kernel, renderWindowsConf_ok_iff.mpr ⟨respelledConf_valid, rfl⟩,
    by decide +kernel⟩
  rw [decodeServer, hread]
  rfl

end Scshr.Tunnel
