import Scshr.Mac.PfRules

/-! Screen Sharing isolation: what the rules of `render_pf` let through, for every
address and port the script accepts. -/
namespace Scshr.Mac

open Common Lib Lib.Decimal Tunnel Option
open List hiding after all_eq_true tail

def loopback : Addr4 := ⟨127, 0, 0, 1⟩

def isolationRules (mac win : Addr4) (port : Nat) : List Rule := [
  ⟨.pass, .udp, none, none, [port]⟩,
  ⟨.pass, .tcp, some loopback, some loopback, [5900]⟩,
  ⟨.pass, .udp, some loopback, some loopback, [5900, 5901, 5902]⟩,
  ⟨.pass, .tcp, some win, some mac, [5900]⟩,
  ⟨.pass, .udp, some win, some mac, [5900, 5901, 5902]⟩,
  ⟨.block, .tcp, none, none, [5900]⟩,
  ⟨.block, .udp, none, none, [5900, 5901, 5902]⟩]

def Packet.Sharing (packet : Packet) : Prop :=
  (packet.proto = .tcp ∧ packet.port = 5900) ∨
    (packet.proto = .udp ∧ packet.port ∈ [5900, 5901, 5902])

/-- The rules let a packet to Screen Sharing through only inside the Mac and from the
Windows address to the Mac's. -/
def Isolated (rules : List Rule) (mac win : Addr4) : Prop :=
  ∀ packet : Packet, packet.Sharing → evaluate rules packet ≠ some .block →
    (packet.source = .v4 loopback ∧ packet.destination = .v4 loopback) ∨
      (packet.source = .v4 win ∧ packet.destination = .v4 mac)

/-! ## Meaning -/

variable {digits : Bytes}

theorem isolated_iff (mac win : Addr4) (port : Nat) :
    Isolated (isolationRules mac win port) mac win ↔ port ∉ [5900, 5901, 5902] := by
  constructor
  · intro hisolated hport
    -- a packet from an address of the other family, to the open port
    have hpacket := hisolated ⟨.udp, .v6 [], .v6 [], port⟩ (.inr ⟨rfl, hport⟩)
    have hpassed : evaluate (isolationRules mac win port) ⟨.udp, .v6 [], .v6 [], port⟩ =
        some .pass := by
      simp [evaluate, isolationRules, Rule.matches, hostMatches]
    rw [hpassed] at hpacket
    rcases hpacket (by decide) with ⟨hsource, -⟩ | ⟨hsource, -⟩ <;> cases hsource
  · intro hport packet hsharing hpassed
    by_contra hallowed
    rw [not_or, not_and, not_and] at hallowed
    obtain ⟨hlocal, hpeer⟩ := hallowed
    apply hpassed
    have hwrong : ∀ {left right : Addr4}, (packet.source = .v4 left →
        ¬ packet.destination = .v4 right) →
        (hostMatches (some left) packet.source && hostMatches (some right) packet.destination) =
          false := by
      intro left right himp
      by_cases hsource : packet.source = .v4 left
      · simp [hostMatches, hsource, himp hsource]
      · simp [hostMatches, hsource]
    have hnever : ∀ {left right : Addr4} {proto : Proto} {ports : List Nat},
        (packet.source = .v4 left → ¬ packet.destination = .v4 right) →
        (Rule.mk .pass proto (some left) (some right) ports).matches packet = false := by
      intro left right proto ports himp
      simp only [Rule.matches, Bool.and_assoc]
      rw [← Bool.and_assoc (hostMatches _ _), hwrong himp]
      simp
    have hopen : (Rule.mk .pass .udp none none [port]).matches packet = false := by
      rcases hsharing with ⟨hproto, -⟩ | ⟨-, hmem⟩
      · simp [Rule.matches, hproto]
      · have hne : packet.port ≠ port := fun heq => hport (heq ▸ hmem)
        simp [Rule.matches, hne]
    rw [evaluate, isolationRules]
    simp only [find?_cons, hopen, hnever hlocal, hnever hpeer]
    rcases hsharing with ⟨hproto, hmem⟩ | ⟨hproto, hmem⟩
    · simp [Rule.matches, hostMatches, hproto, hmem]
    · have hcontains : [5900, 5901, 5902].contains packet.port := by simpa using hmem
      simp only [Rule.matches, hostMatches, hproto, hcontains]
      rfl

/-! ## Words -/

structure Word (word : Bytes) : Prop where
  ne_nil : word ≠ []
  chars : word.all fun c => 33 ≤ c

instance (word : Bytes) : Decidable (Word word) :=
  decidable_of_iff (word ≠ [] ∧ word.all fun c => 33 ≤ c)
    ⟨fun h => ⟨h.1, h.2⟩, fun h => ⟨h.ne_nil, h.chars⟩⟩

namespace Word

variable {word : Bytes}

theorem noBlank (h : Word word) : ∀ c ∈ word, isBlank c = false := by
  intro c hc
  have hchar := List.all_eq_true.mp h.chars c hc
  rw [decide_eq_true_iff] at hchar
  have hne : c ≠ 32 ∧ c ≠ 9 := by
    constructor <;> rintro rfl <;> exact absurd hchar (by decide)
  simp [isBlank, hne]

theorem newline_notMem (h : Word word) : newline ∉ word := by
  intro hmem
  exact absurd (List.all_eq_true.mp h.chars newline hmem) (by decide)

theorem printable (h : Word word) : word.all fun c => c = 9 || 32 ≤ c := by
  rw [List.all_eq_true]
  intro c hc
  have hchar := List.all_eq_true.mp h.chars c hc
  rw [decide_eq_true_iff, UInt8.le_iff_toNat_le] at hchar
  have hle : (32 : UInt8) ≤ c := UInt8.le_iff_toNat_le.mpr (Nat.le_trans (by decide) hchar)
  simp [hle]

end Word

theorem sentence_cons_cons (word next : Bytes) (rest : List Bytes) :
    sentence (word :: next :: rest) = word ++ 32 :: sentence (next :: rest) := by
  rw [sentence, intercalate_cons_cons, append_assoc]
  rfl

theorem sentence_append (hfront : front ≠ []) (hback : back ≠ []) :
    sentence (front ++ back) = sentence front ++ 32 :: sentence back := by
  induction front with
  | nil => exact absurd rfl hfront
  | cons word rest ih =>
    obtain ⟨next, more, rfl⟩ := exists_cons_of_ne_nil hback
    cases rest with
    | nil =>
      rw [singleton_append, sentence_cons_cons, sentence, sentence,
        intercalate_singleton]
    | cons second tail =>
      rw [cons_append, cons_append, sentence_cons_cons, sentence_cons_cons,
        ← cons_append, ih (by simp), append_assoc, cons_append]

section

variable {all : List Bytes}

theorem words_sentence (h : ∀ word ∈ all, Word word) : words (sentence all) = all := by
  induction all with
  | nil => rfl
  | cons word rest ih =>
    rw [forall_mem_cons] at h
    have hword := words_of_noBlank h.1.ne_nil h.1.noBlank
    cases rest with
    | nil => rw [sentence, intercalate_singleton, hword]
    | cons next more =>
      rw [sentence_cons_cons, words_append rfl, hword, ih h.2]
      rfl

theorem newline_notMem_sentence (h : ∀ word ∈ all, newline ∉ word) : newline ∉ sentence all := by
  induction all with
  | nil => simp [sentence]
  | cons word rest ih =>
    rw [forall_mem_cons] at h
    cases rest with
    | nil => simpa [sentence] using h.1
    | cons next more =>
      have hspace : newline ≠ 32 := by decide
      rw [sentence_cons_cons, mem_append, mem_cons, not_or, not_or]
      exact ⟨h.1, hspace, ih h.2⟩

theorem printable_sentence (h : ∀ word ∈ all, Word word) :
    (sentence all).all fun c => c = 9 || 32 ≤ c := by
  induction all with
  | nil => rfl
  | cons word rest ih =>
    rw [forall_mem_cons] at h
    cases rest with
    | nil =>
      rw [sentence, intercalate_singleton]
      exact h.1.printable
    | cons next more =>
      rw [sentence_cons_cons, all_append, all_cons, h.1.printable, ih h.2]
      rfl

theorem parseRuleLine_sentence (h : ∀ word ∈ all, Word word) :
    parseRuleLine (sentence all) = parseRule all := by
  rw [parseRuleLine, if_pos (printable_sentence h), words_sentence h]

end

/-! ## Reading the rules back -/

section

variable {action : List Bytes} {proto source destination : Bytes} {ports : List Bytes}

theorem word_pfRule (haction : ∀ word ∈ action, Word word) (hproto : Word proto)
    (hsource : Word source) (hdestination : Word destination) (hports : ∀ word ∈ ports, Word word) :
    ∀ word ∈ pfRule action proto source destination ports, Word word := by
  simp only [pfRule, forall_mem_append, forall_mem_cons]
  exact ⟨⟨haction, by decide, by decide, by decide, hproto, by decide, hsource, by decide,
    hdestination, by decide, by simp⟩, hports⟩

theorem expect_cons (literal : String) (rest : List Bytes) :
    expect literal (ascii literal :: rest) = some rest := if_pos rfl

theorem parseRule_action (haction : ∀ rest, parseAction (action ++ rest) = some (readAction, rest))
    (rest : List Bytes) :
    parseRule (action ++ ascii "in" :: ascii "quick" :: ascii "proto" :: rest) =
      parseMatch readAction rest := by
  simp only [parseRule, haction, bind_eq_bind, bind_some, expect_cons]

theorem parseRule_pfRule (haction : ∀ rest, parseAction (action ++ rest) = some (readAction, rest))
    (hproto : ∀ rest, parseProto (proto :: rest) = some (readProto, rest))
    (hsource : ∀ rest, parseHost (source :: rest) = some (from_, rest))
    (hdestination : ∀ rest, parseHost (destination :: rest) = some (to_, rest))
    (hports : parsePorts (ports ++ tail) = some (numbers, tail))
    (htail : tail = [] ∨ tail = [ascii "keep", ascii "state"]) :
    parseRule (pfRule action proto source destination ports ++ tail) =
      some ⟨readAction, readProto, from_, to_, numbers⟩ := by
  rw [pfRule, append_assoc, append_assoc]
  simp only [cons_append, nil_append]
  rw [parseRule_action haction]
  simp only [parseMatch, hproto, bind_eq_bind, bind_some]
  rw [expect_cons, bind_some, hsource, bind_some, expect_cons, bind_some,
    hdestination, bind_some, expect_cons, bind_some, hports, bind_some,
    if_pos htail]

end

theorem word_digits (hne : digits ≠ []) (h : digits.all isDigit) : Word digits where
  ne_nil := hne
  chars := by
    rw [List.all_eq_true] at h ⊢
    intro c hc
    have hdigit := isDigit_iff.mp (h c hc)
    rw [decide_eq_true_iff, UInt8.le_iff_toNat_le]
    exact Nat.le_trans (by decide) hdigit.1

theorem word_prefix : Word tunnelSubnetPrefix := by decide

theorem word_ip (hne : digits ≠ []) (h : digits.all isDigit) :
    Word (tunnelSubnetPrefix ++ digits) where
  ne_nil := by
    intro hnil
    exact hne (append_eq_nil_iff.mp hnil).2
  chars := by
    rw [all_append, word_prefix.chars, (word_digits hne h).chars]
    rfl

theorem pfPort_digits (hne : digits ≠ []) (h : digits.all isDigit) (hbound : read digits ≤ 65535) :
    pfPort digits = some (read digits) := by
  rw [pfPort, if_neg]
  simp [hne, h, hbound]

theorem pfAddr_ip (hne : digits ≠ []) (h : digits.all isDigit) (hbound : read digits ≤ 255) :
    pfAddr (tunnelSubnetPrefix ++ digits) = some ⟨10, 77, 77, UInt8.ofNat (read digits)⟩ := by
  have hlast : pfOctet digits = some (UInt8.ofNat (read digits)) := by
    rw [pfOctet, if_neg]
    simp [hne, h, hbound]
  rw [pfAddr, splitOn_ip h]
  simp only [map_cons, map_nil, hlast]
  rfl

theorem parseHost_addr (h : pfAddr word = some addr) (rest : List Bytes) :
    parseHost (word :: rest) = some (some addr, rest) := by
  have hany : word ≠ ascii "any" := by
    rintro rfl
    have hnone : pfAddr (ascii "any") = none := by decide
    rw [hnone] at h
    cases h
  rw [parseHost, if_neg hany, h]
  rfl

theorem parsePorts_single (hne : digits ≠ []) (h : digits.all isDigit)
    (hbound : read digits ≤ 65535) (rest : List Bytes) :
    parsePorts (digits :: rest) = some ([read digits], rest) := by
  have hbrace : digits ≠ ascii "\x7b" := by
    rintro rfl
    exact absurd h (by decide)
  rw [parsePorts, if_neg hbrace, pfPort_digits hne h hbound]
  rfl

section

variable {mac win port : Bytes}

theorem word_pfRuleWords (hmac : Word mac) (hwin : Word win) (hport : Word port) :
    ∀ rule ∈ pfRuleWords mac win port, ∀ word ∈ rule, Word word := by
  have hpass : ∀ word ∈ [ascii "pass"], Word word := by decide
  have hblock : ∀ word ∈ [ascii "block", ascii "drop"], Word word := by decide
  have hkeep : ∀ word ∈ [ascii "keep", ascii "state"], Word word := by decide
  have htcpPorts : ∀ word ∈ pfTcpPorts, Word word := by decide
  have hudpPorts : ∀ word ∈ pfUdpPorts, Word word := by decide
  have hsingle : ∀ word ∈ [port], Word word := by simpa using hport
  have htcp : Word (ascii "tcp") := by decide
  have hudp : Word (ascii "udp") := by decide
  have hany : Word (ascii "any") := by decide
  have hinside : Word (ascii "127.0.0.1") := by decide
  simp only [pfRuleWords, forall_mem_cons (α := List Bytes)]
  refine ⟨?_, ?_, ?_, ?_, ?_, ?_, ?_, by simp⟩
  · exact forall_mem_append.mpr ⟨word_pfRule hpass hudp hany hany hsingle, hkeep⟩
  · exact forall_mem_append.mpr ⟨word_pfRule hpass htcp hinside hinside htcpPorts, hkeep⟩
  · exact forall_mem_append.mpr ⟨word_pfRule hpass hudp hinside hinside hudpPorts, hkeep⟩
  · exact forall_mem_append.mpr ⟨word_pfRule hpass htcp hwin hmac htcpPorts, hkeep⟩
  · exact forall_mem_append.mpr ⟨word_pfRule hpass hudp hwin hmac hudpPorts, hkeep⟩
  · exact word_pfRule hblock htcp hany hany htcpPorts
  · exact word_pfRule hblock hudp hany hany hudpPorts

theorem isRuleLine_comment (chars : List Char) :
    ¬ isRuleLine (ascii (String.ofList ('#' :: chars))) := by
  rw [ascii_ofList]
  exact Bool.eq_false_iff.mp rfl

theorem filter_isRuleLine (mac win port : Bytes) :
    (pfHeader ++ (pfRuleWords mac win port).map sentence).filter isRuleLine =
      (pfRuleWords mac win port).map sentence := by
  have hheader : pfHeader.filter isRuleLine = [] := by
    simp only [pfHeader, filter_eq_nil_iff, forall_mem_cons]
    exact ⟨isRuleLine_comment _, isRuleLine_comment _, isRuleLine_comment _, by simp⟩
  have hrules : ∀ line ∈ (pfRuleWords mac win port).map sentence, isRuleLine line := by
    simp only [pfRuleWords, map_cons, forall_mem_cons]
    exact ⟨rfl, rfl, rfl, rfl, rfl, rfl, rfl, by simp⟩
  rw [filter_append, hheader, nil_append, filter_eq_self.mpr hrules]

theorem newline_notMem_pfHeader : ∀ line ∈ pfHeader, newline ∉ line := by
  simp only [pfHeader, forall_mem_cons]
  exact ⟨notMem_ascii _ (by decide), notMem_ascii _ (by decide), notMem_ascii _ (by decide),
    by simp⟩

theorem loadRules_renderPf (hmac : Word mac) (hwin : Word win) (hne : port ≠ [])
    (hport : port.all isDigit) (hbound : read port ≤ 65535) (hmacAddr : pfAddr mac = some macAddr)
    (hwinAddr : pfAddr win = some winAddr) :
    loadRules (renderPf mac win port) = some (isolationRules macAddr winAddr (read port)) := by
  have hwords := word_pfRuleWords hmac hwin (word_digits hne hport)
  have hlines : ∀ line ∈ pfHeader ++ (pfRuleWords mac win port).map sentence, newline ∉ line := by
    rw [forall_mem_append]
    refine ⟨newline_notMem_pfHeader, ?_⟩
    intro line hline
    obtain ⟨rule, hrule, rfl⟩ := mem_map.mp hline
    exact newline_notMem_sentence fun word hword => (hwords rule hrule word hword).newline_notMem
  have hline : ∀ rule ∈ pfRuleWords mac win port, parseRuleLine (sentence rule) =
      parseRule rule := fun rule hrule => parseRuleLine_sentence (hwords rule hrule)
  simp only [pfRuleWords, forall_mem_cons] at hline
  obtain ⟨hopen, hlocalTcp, hlocalUdp, hpeerTcp, hpeerUdp, hblockTcp, hblockUdp, -⟩ := hline
  have hinside : ∀ rest, parseHost (ascii "127.0.0.1" :: rest) = some (some loopback, rest) :=
    parseHost_addr (by decide +kernel)
  have hwinHost := parseHost_addr hwinAddr
  have hmacHost := parseHost_addr hmacAddr
  have htcpPorts : ∀ rest, parsePorts (pfTcpPorts ++ rest) = some ([5900], rest) := fun _ => rfl
  have hudpPorts : ∀ rest, parsePorts (pfUdpPorts ++ rest) = some ([5900, 5901, 5902], rest) :=
    fun _ => rfl
  have hpass : ∀ rest, parseAction ([ascii "pass"] ++ rest) = some (.pass, rest) := fun _ => rfl
  have hblock : ∀ rest, parseAction ([ascii "block", ascii "drop"] ++ rest) = some (.block, rest) :=
    fun _ => rfl
  have htcp : ∀ rest, parseProto (ascii "tcp" :: rest) = some (.tcp, rest) := fun _ => rfl
  have hudp : ∀ rest, parseProto (ascii "udp" :: rest) = some (.udp, rest) := fun _ => rfl
  have hany : ∀ rest, parseHost (ascii "any" :: rest) = some (none, rest) := fun _ => rfl
  rw [loadRules, renderPf, Text.lines_unlines hlines, filter_isRuleLine, pfRuleWords]
  simp only [map_cons, map_nil, mapM_cons, mapM_nil]
  rw [hopen, hlocalTcp, hlocalUdp, hpeerTcp, hpeerUdp, hblockTcp, hblockUdp,
    parseRule_pfRule hpass hudp hany hany (parsePorts_single hne hport hbound _) (.inr rfl),
    parseRule_pfRule hpass htcp hinside hinside (htcpPorts _) (.inr rfl),
    parseRule_pfRule hpass hudp hinside hinside (hudpPorts _) (.inr rfl),
    parseRule_pfRule hpass htcp hwinHost hmacHost (htcpPorts _) (.inr rfl),
    parseRule_pfRule hpass hudp hwinHost hmacHost (hudpPorts _) (.inr rfl),
    ← append_nil (pfRule _ (ascii "tcp") (ascii "any") _ _),
    parseRule_pfRule hblock htcp hany hany (htcpPorts _) (.inl rfl),
    ← append_nil (pfRule _ (ascii "udp") (ascii "any") _ pfUdpPorts),
    parseRule_pfRule hblock hudp hany hany (hudpPorts _) (.inl rfl)]
  rfl

/-! ## Arguments of several lines -/

theorem loadRules_cut (hfront : front ≠ []) (hbefore : ∀ word ∈ before, Word word)
    (hhead : isRuleLine (sentence before)) (hlead : newline ∉ lead)
    (hnone : parseRule (before ++ words lead) = none) (hspace : ∀ c ∈ space, isSpace c)
    (hnewline : newline ∈ space) (hafter : after ≠ []) :
    loadRules (Text.unlines newline
      (front ++ sentence (before ++ (lead ++ (space ++ digits)) :: after) :: back)) = none := by
  obtain ⟨line, rest, hline, rfl⟩ := Text.exists_line hnewline
  obtain ⟨next, more, rfl⟩ := exists_cons_of_ne_nil hafter
  have hne : before ≠ [] := by
    rintro rfl
    cases hhead
  have hbegin : newline ∉ sentence before :=
    newline_notMem_sentence fun word hword => (hbefore word hword).newline_notMem
  have hspaceChar : newline ≠ 32 := by decide
  have hcut : newline ∉ sentence before ++ 32 :: lead ++ line := by
    simp [hbegin, hspaceChar, hlead, hline]
  have hrule : isRuleLine (sentence before ++ 32 :: lead ++ line) := by
    cases htext : sentence before with
    | nil =>
      rw [htext] at hhead
      cases hhead
    | cons c tail =>
      rw [htext] at hhead
      exact hhead
  have hparse : parseRule (words (sentence before ++ 32 :: lead)) = none := by
    rw [words_append rfl, words_sentence hbefore, hnone]
  have hbad : parseRuleLine (sentence before ++ 32 :: lead ++ line) = none :=
    parseRuleLine_cut hparse fun c hc => hspace c (mem_append_left _ hc)
  refine loadRules_eq_none ?_ hrule hbad
  rw [Text.unlines_append, Text.unlines_cons, sentence_append hne (by simp), sentence_cons_cons]
  simpa using Text.mem_lines_between hfront hcut
    (rest ++ (digits ++ 32 :: (sentence (next :: more) ++ newline :: Text.unlines newline back)))

variable {space : Bytes}

theorem loadRules_port_cut (mac win : Bytes) (hspace : ∀ c ∈ space, isSpace c)
    (hnewline : newline ∈ space) : loadRules (renderPf mac win (space ++ digits)) = none := by
  let before := pfRule [ascii "pass"] (ascii "udp") (ascii "any") (ascii "any") []
  have hbefore : ∀ word ∈ before, Word word := by decide
  have hhead : isRuleLine (sentence before) := rfl
  have hnone : parseRule (before ++ words []) = none := by decide +kernel
  have hcut : ∀ back, loadRules (Text.unlines newline (pfHeader ++
      sentence (before ++ ([] ++ (space ++ digits)) :: [ascii "keep", ascii "state"]) :: back)) =
      none := fun back =>
    loadRules_cut (by simp [pfHeader]) hbefore hhead (by simp) hnone hspace hnewline (by simp)
  rw [nil_append] at hcut
  exact hcut ((pfRuleWords mac win []).tail.map sentence)

theorem loadRules_win_cut (mac port : Bytes) (hspace : ∀ c ∈ space, isSpace c)
    (hnewline : newline ∈ space) :
    loadRules (renderPf mac (tunnelSubnetPrefix ++ (space ++ digits)) port) = none := by
  let before := [ascii "pass", ascii "in", ascii "quick", ascii "proto", ascii "tcp", ascii "from"]
  let after := [ascii "to", mac, ascii "port"] ++ pfTcpPorts ++ [ascii "keep", ascii "state"]
  have hbefore : ∀ word ∈ before, Word word := by decide
  have hhead : isRuleLine (sentence before) := rfl
  have hnone : parseRule (before ++ words tunnelSubnetPrefix) = none := by decide +kernel
  have hcut : ∀ above below, above ≠ [] → loadRules (Text.unlines newline (above ++
      sentence (before ++ (tunnelSubnetPrefix ++ (space ++ digits)) :: after) :: below)) = none :=
    fun above below habove => loadRules_cut habove hbefore hhead word_prefix.newline_notMem hnone
      hspace hnewline (by simp [after])
  exact hcut (pfHeader ++ ((pfRuleWords mac [] port).take 3).map sentence)
    (((pfRuleWords mac (tunnelSubnetPrefix ++ (space ++ digits)) port).drop 4).map sentence)
    (by simp [pfHeader])

theorem loadRules_mac_cut (port : Bytes) (hwin : Word win) (hwinAddr : pfAddr win = some winAddr)
    (hspace : ∀ c ∈ space, isSpace c) (hnewline : newline ∈ space) :
    loadRules (renderPf (tunnelSubnetPrefix ++ (space ++ digits)) win port) = none := by
  let front := [ascii "pass", ascii "in", ascii "quick", ascii "proto", ascii "tcp", ascii "from"]
  let before := front ++ [win, ascii "to"]
  let after := [ascii "port"] ++ pfTcpPorts ++ [ascii "keep", ascii "state"]
  have hbefore : ∀ word ∈ before, Word word := by
    have hfront : ∀ word ∈ front, Word word := by decide
    have hto : Word (ascii "to") := by decide
    rw [forall_mem_append]
    exact ⟨hfront, by simp [hwin, hto]⟩
  have hhead : isRuleLine (sentence before) := rfl
  have hnone : parseRule (before ++ words tunnelSubnetPrefix) = none := by
    have haction : ∀ rest, parseAction ([ascii "pass"] ++ rest) = some (.pass, rest) :=
      fun _ => rfl
    have hproto : ∀ rest, parseProto (ascii "tcp" :: rest) = some (.tcp, rest) := fun _ => rfl
    have hlast : parseHost [tunnelSubnetPrefix] = none := by decide +kernel
    rw [words_of_noBlank word_prefix.ne_nil word_prefix.noBlank]
    refine (parseRule_action haction
      [ascii "tcp", ascii "from", win, ascii "to", tunnelSubnetPrefix]).trans ?_
    simp only [parseMatch, hproto, bind_eq_bind, bind_some]
    rw [expect_cons, bind_some, parseHost_addr hwinAddr, bind_some, expect_cons,
      bind_some, hlast, bind_none]
  have hcut : ∀ above below, above ≠ [] → loadRules (Text.unlines newline (above ++
      sentence (before ++ (tunnelSubnetPrefix ++ (space ++ digits)) :: after) :: below)) = none :=
    fun above below habove => loadRules_cut habove hbefore hhead word_prefix.newline_notMem hnone
      hspace hnewline (by simp [after])
  exact hcut (pfHeader ++ ((pfRuleWords [] [] port).take 3).map sentence)
    (((pfRuleWords (tunnelSubnetPrefix ++ (space ++ digits)) win port).drop 4).map sentence)
    (by simp [pfHeader])

end

/-! ## Every accepted argument -/

theorem isTunnelIp_word (h : isTunnelIp ip) :
    (∃ addr, Word ip ∧ pfAddr ip = some addr) ∨
      ∃ space digits, ip = tunnelSubnetPrefix ++ (space ++ digits) ∧ (∀ c ∈ space, isSpace c) ∧
        newline ∈ space := by
  obtain ⟨space, digits, rfl, hspace, hnil | hnewline, hline, -, hbound⟩ := isTunnelIp_cases h
  · obtain ⟨hne, hdigits⟩ := octetLine_digits hline
    rw [hnil, nil_append]
    exact .inl ⟨_, word_ip hne hdigits, pfAddr_ip hne hdigits (by omega)⟩
  · exact .inr ⟨space, digits, rfl, hspace, hnewline⟩

theorem portLine_mem_iff (h : portLine line) :
    line ∈ [ascii "5900", ascii "5901", ascii "5902"] ↔ read line ∈ [5900, 5901, 5902] := by
  have hports : [ascii "5900", ascii "5901", ascii "5902"] = [5900, 5901, 5902].map write := by
    decide
  rw [hports]
  constructor
  · intro hmem
    obtain ⟨number, hnumber, rfl⟩ := mem_map.mp hmem
    rwa [read_write]
  · intro hmem
    exact mem_map.mpr ⟨read line, hmem, write_read_portLine h⟩

section

variable {mac win port : Bytes}

theorem loadRules_of_single (hmac : isTunnelIp mac) (hwin : isTunnelIp win) (hport : isPort port)
    (hsingle : newline ∉ mac ∧ newline ∉ win ∧ newline ∉ port) :
    ∃ macAddr winAddr, pfAddr mac = some macAddr ∧ pfAddr win = some winAddr ∧ portLine port ∧
      loadRules (renderPf mac win port) = some (isolationRules macAddr winAddr (read port)) := by
  obtain ⟨hmacLine, hwinLine, hportLine⟩ := hsingle
  obtain ⟨front, digits, rfl, -, hfront, hline, hbound⟩ := isPort_cases hport
  have hnil : front = [] := by
    rcases hfront with hfront | hfront
    · exact hfront
    · exact absurd (mem_append_left digits hfront) hportLine
  subst hnil
  rw [nil_append]
  obtain ⟨hne, hdigits⟩ := portLine_digits hline
  rcases isTunnelIp_word hmac with ⟨macAddr, hmacWord, hmacAddr⟩ | ⟨space, last, rfl, -, hcut⟩
  · rcases isTunnelIp_word hwin with ⟨winAddr, hwinWord, hwinAddr⟩ | ⟨space, last, rfl, -, hcut⟩
    · exact ⟨macAddr, winAddr, hmacAddr, hwinAddr, hline,
        loadRules_renderPf hmacWord hwinWord hne hdigits hbound hmacAddr hwinAddr⟩
    · exact absurd (by simp [hcut]) hwinLine
  · exact absurd (by simp [hcut]) hmacLine

/-- PF refuses the file if an accepted argument has several lines. -/
theorem loadRules_of_several (hmac : isTunnelIp mac) (hwin : isTunnelIp win) (hport : isPort port)
    (hseveral : ¬ (newline ∉ mac ∧ newline ∉ win ∧ newline ∉ port)) :
    loadRules (renderPf mac win port) = none := by
  rcases isTunnelIp_word hwin with ⟨winAddr, hwinWord, hwinAddr⟩ | ⟨space, last, rfl, hspace, hcut⟩
  · rcases isTunnelIp_word hmac with ⟨macAddr, hmacWord, -⟩ | ⟨space, last, rfl, hspace, hcut⟩
    · obtain ⟨front, digits, rfl, hspace, hfront, hline, -⟩ := isPort_cases hport
      rcases hfront with rfl | hcut
      · -- all three are single lines
        have hdigits := (portLine_digits hline).2
        exact absurd ⟨hmacWord.newline_notMem, hwinWord.newline_notMem,
          newline_notMem_digits hdigits⟩ hseveral
      · exact loadRules_port_cut mac win hspace hcut
    · exact loadRules_mac_cut port hwinWord hwinAddr hspace hcut
  · exact loadRules_win_cut mac port hspace hcut

end

/-- Screen Sharing is isolated unless the listen port is one of its own ports. -/
theorem screen_sharing_isolated_iff (mac win port : Bytes) (hmac : isTunnelIp mac)
    (hwin : isTunnelIp win) (hport : isPort port) :
    (∀ rules, loadRules (renderPf mac win port) = some rules →
      ∃ macAddr winAddr, pfAddr mac = some macAddr ∧ pfAddr win = some winAddr ∧
        Isolated rules macAddr winAddr) ↔
      ¬ (newline ∉ mac ∧ newline ∉ win ∧
        port ∈ [ascii "5900", ascii "5901", ascii "5902"]) := by
  by_cases hsingle : newline ∉ mac ∧ newline ∉ win ∧ newline ∉ port
  · obtain ⟨macAddr, winAddr, hmacAddr, hwinAddr, hline, hrules⟩ :=
      loadRules_of_single hmac hwin hport hsingle
    have hports := portLine_mem_iff hline
    have hisolated := isolated_iff macAddr winAddr (read port)
    rw [hrules, hmacAddr, hwinAddr]
    simp only [Option.some.injEq, exists_and_left, exists_eq_left', forall_eq', hsingle, hports,
      not_false_eq_true, true_and]
    exact hisolated
  · have hnone := loadRules_of_several hmac hwin hport hsingle
    have hport : port ∈ [ascii "5900", ascii "5901", ascii "5902"] → newline ∉ port := by
      have hlines : ∀ line ∈ [ascii "5900", ascii "5901", ascii "5902"], newline ∉ line := by
        decide
      exact hlines port
    rw [hnone]
    constructor
    · exact fun _ hopen => hsingle ⟨hopen.1, hopen.2.1, hport hopen.2.2⟩
    · intro _ rules hrules
      cases hrules

theorem screen_sharing_isolated_iff_default :
    isPort defaultListenPort ∧
      ∀ rules, loadRules (renderPf defaultMacIp defaultWinIp defaultListenPort) = some rules →
        ∃ macAddr winAddr, pfAddr defaultMacIp = some macAddr ∧
          pfAddr defaultWinIp = some winAddr ∧ Isolated rules macAddr winAddr :=
  ⟨by decide, (screen_sharing_isolated_iff defaultMacIp defaultWinIp defaultListenPort
    (by decide +kernel) (by decide +kernel) (by decide)).mpr (by decide +kernel)⟩

/-- A datagram from the internet to port 5900 of the Mac, which listens there for its
tunnel. -/
theorem screen_sharing_open :
    isTunnelIp defaultMacIp ∧ isTunnelIp defaultWinIp ∧ isPort (ascii "5900") ∧
      (loadRules (renderPf defaultMacIp defaultWinIp (ascii "5900"))).map
        (evaluate · ⟨.udp, .v4 ⟨203, 0, 113, 9⟩, .v4 ⟨198, 51, 100, 7⟩, 5900⟩) =
          some (some .pass) := by
  have hmac : pfAddr defaultMacIp = some ⟨10, 77, 77, 1⟩ := by decide +kernel
  have hwin : pfAddr defaultWinIp = some ⟨10, 77, 77, 2⟩ := by decide +kernel
  refine ⟨by decide +kernel, by decide +kernel, by decide +kernel, ?_⟩
  rw [loadRules_renderPf (by decide) (by decide) (by decide) (by decide) (by decide) hmac hwin]
  decide

end Scshr.Mac
