import Scshr.Tunnel.TunnelAddress

/-! The rendered configuration of the Windows side as WireGuard reads it.  Every validator lets
visible characters through only, and none of them the comment sign, so a value stays on its line
and in its entry. -/
namespace Scshr.Tunnel

open Common Lib Lib.Decimal List
open Lib.Ini (Word isWordChar)

def confLines (c : WindowsTunnelConfig) : List Ini.Line :=
  [.comment (ascii " Generated by scshr init - do not edit by hand."),
    .comment (ascii " scshr application tunnel: one Windows peer <-> one macOS peer, " ++
      ascii "no default route, no DNS."),
    .header (ascii "[Interface]"),
    .entry (ascii "PrivateKey") c.privateKey,
    .entry (ascii "Address") (hostRoute c.winIp),
    .blank,
    .header (ascii "[Peer]"),
    .entry (ascii "PublicKey") c.peerPublicKey,
    .entry (ascii "AllowedIPs") (hostRoute c.peerIp),
    .entry (ascii "Endpoint") (c.endpointHost ++ ascii ":" ++ write c.endpointPort.toNat),
    .entry (ascii "PersistentKeepalive") (write 25)]

theorem conf_literals :
    ascii "# Generated by scshr init - do not edit by hand.\n" =
        35 :: ascii " Generated by scshr init - do not edit by hand." ++ [newline] ∧
      ascii "# scshr application tunnel: one Windows peer <-> one macOS peer, " =
        35 :: ascii " scshr application tunnel: one Windows peer <-> one macOS peer, " ∧
      ascii "no default route, no DNS.\n" = ascii "no default route, no DNS." ++ [newline] ∧
      ascii "[Interface]\n" = ascii "[Interface]" ++ [newline] ∧
      ascii "PrivateKey = " = ascii "PrivateKey" ++ [32, 61, 32] ∧
      ascii "Address = " = ascii "Address" ++ [32, 61, 32] ∧
      ascii "/32\n" = ascii "/32" ++ [newline] ∧
      ascii "[Peer]\n" = ascii "[Peer]" ++ [newline] ∧
      ascii "PublicKey = " = ascii "PublicKey" ++ [32, 61, 32] ∧
      ascii "AllowedIPs = " = ascii "AllowedIPs" ++ [32, 61, 32] ∧
      ascii "Endpoint = " = ascii "Endpoint" ++ [32, 61, 32] ∧
      ascii "PersistentKeepalive = " = ascii "PersistentKeepalive" ++ [32, 61, 32] ∧
      ascii "\n" = [newline] := by
  decide +kernel

theorem windowsConf_eq (c : WindowsTunnelConfig) :
    windowsConf c = Text.unlines newline ((confLines c).map Ini.Line.text) := by
  obtain ⟨generated, purpose, routes, interface, privateKey, address, host, peer, publicKey,
    allowedIps, endpoint, keepalive, ending⟩ := conf_literals
  unfold windowsConf confLines hostRoute
  rw [generated, purpose, routes, interface, privateKey, address, host, peer, publicKey,
    allowedIps, endpoint, keepalive, ending]
  simp only [map_cons, map_nil, Ini.Line.text, Text.unlines_cons, Text.unlines_nil,
    append_assoc, cons_append, nil_append]

theorem word_append (word : Word front) (chars : ∀ c ∈ back, isWordChar c = true) :
    Word (front ++ back) := by
  refine ⟨append_ne_nil_of_left_ne_nil word.nonempty back, ?_⟩
  exact forall_mem_append.mpr ⟨word.chars, chars⟩

theorem word_hostRoute (word : Word ip) : Word (hostRoute ip) :=
  word_append word (by decide +kernel)

def IsName (name : Bytes) : Prop :=
  name ≠ [] ∧ name.all isWordChar = true ∧ 61 ∉ name ∧ name.head? ≠ some 91

instance (name : Bytes) : Decidable (IsName name) := inferInstanceAs (Decidable (_ ∧ _))

theorem proper_entry (isName : IsName name) (word : Word value) :
    (Ini.Line.entry name value).Proper :=
  ⟨⟨isName.1, all_eq_true.mp isName.2.1⟩, isName.2.2.1, isName.2.2.2, word⟩

theorem proper_header
    (literal : text ≠ [] ∧ text.all isWordChar = true ∧ Ini.isHeader text = true) :
    (Ini.Line.header text).Proper :=
  ⟨⟨literal.1, all_eq_true.mp literal.2.1⟩, literal.2.2⟩

theorem word_endpoint (word : Word host) (port : Nat) : Word (host ++ ascii ":" ++ write port) := by
  apply word_append
  · exact word_append word (by decide +kernel)
  · exact (word_write port).chars

theorem confLines_proper (valid : c.Valid) : ∀ line ∈ confLines c, line.Proper := by
  have comments : newline ∉ ascii " Generated by scshr init - do not edit by hand." ∧
      newline ∉ ascii " scshr application tunnel: one Windows peer <-> one macOS peer, " ++
        ascii "no default route, no DNS." := by decide +kernel
  simp only [confLines, forall_mem_cons]
  refine ⟨comments.1, comments.2, proper_header (by decide +kernel), ?_, ?_, trivial,
    proper_header (by decide +kernel), ?_, ?_, ?_, ?_, by simp⟩
  · exact proper_entry (by decide +kernel) (word_of_validWgKey valid.privateKey).1
  · exact proper_entry (by decide +kernel) (word_hostRoute (word_of_validTunnelIp valid.win).1)
  · exact proper_entry (by decide +kernel) (word_of_validWgKey valid.peerPublicKey).1
  · exact proper_entry (by decide +kernel) (word_hostRoute (word_of_validTunnelIp valid.peer).1)
  · exact proper_entry (by decide +kernel)
      (word_endpoint (word_of_validEndpointHost valid.host).1 c.endpointPort.toNat)
  · exact proper_entry (by decide +kernel) (word_write 25)

/-- Whatever strings were accepted, the rendered text is read as the two sections it is meant
to have, each entry with the configuration's own value. -/
theorem windowsConf_sections (c : WindowsTunnelConfig) (text : Bytes)
    (accepted : renderWindowsConf c = .ok text) :
    Ini.read text = some
      [⟨ascii "[Interface]",
        [(ascii "PrivateKey", c.privateKey), (ascii "Address", c.winIp ++ ascii "/32")]⟩,
      ⟨ascii "[Peer]",
        [(ascii "PublicKey", c.peerPublicKey), (ascii "AllowedIPs", c.peerIp ++ ascii "/32"),
          (ascii "Endpoint", c.endpointHost ++ ascii ":" ++ write c.endpointPort.toNat),
          (ascii "PersistentKeepalive", write 25)]⟩] := by
  obtain ⟨valid, rendered⟩ := renderWindowsConf_ok_iff.mp accepted
  rw [rendered, windowsConf_eq]
  exact Ini.read_unlines (confLines c) (confLines_proper valid) rfl

theorem windowsConf_sections_sample :
    renderWindowsConf sampleConf = .ok (windowsConf sampleConf) ∧
      ∃ sections, Ini.read (windowsConf sampleConf) = some sections ∧ sections.length = 2 := by
  have accepted := renderWindowsConf_ok_iff.mpr ⟨sampleConf_valid, rfl⟩
  exact ⟨accepted, _, windowsConf_sections sampleConf _ accepted, rfl⟩

end Scshr.Tunnel
