import Scshr.Mac.Checks

/-! The part of PF's rule language that `render_pf` writes, and its meaning: the first
rule that matches decides, since every rule is `quick`. -/
namespace Scshr.Mac

open Common Lib Lib.Decimal Tunnel List

inductive Proto where
  | tcp
  | udp
  deriving DecidableEq, Repr

inductive Action where
  | pass
  | block
  deriving DecidableEq, Repr

structure Rule where
  action : Action
  proto : Proto
  source : Option Addr4
  destination : Option Addr4
  ports : List Nat
  deriving DecidableEq, Repr

/-! ## Reading -/

def words (line : Bytes) : List Bytes :=
  (Text.lines 32 (line.map fun c => if c = 9 then 32 else c)).filter (· ≠ [])

def pfOctet (field : Bytes) : Option UInt8 :=
  if field = [] ∨ !field.all isDigit ∨ read field > 255 then none
  else some (UInt8.ofNat (read field))

/-- An address in decimal; leading zeros do not make an octet octal. -/
def pfAddr (text : Bytes) : Option Addr4 :=
  match (text.splitOn dot).map pfOctet with
  | [some a, some b, some c, some d] => some ⟨a, b, c, d⟩
  | _ => none

def pfPort (word : Bytes) : Option Nat :=
  if word = [] ∨ !word.all isDigit ∨ read word > 65535 then none else some (read word)

def expect (literal : String) : List Bytes → Option (List Bytes)
  | word :: rest => if word = ascii literal then some rest else none
  | [] => none

def parseAction : List Bytes → Option (Action × List Bytes)
  | word :: rest =>
      if word = ascii "pass" then some (.pass, rest)
      else if word = ascii "block" then (expect "drop" rest).map fun rest => (.block, rest)
      else none
  | [] => none

def parseProto : List Bytes → Option (Proto × List Bytes)
  | word :: rest =>
      if word = ascii "tcp" then some (.tcp, rest)
      else if word = ascii "udp" then some (.udp, rest)
      else none
  | [] => none

def parseHost : List Bytes → Option (Option Addr4 × List Bytes)
  | word :: rest =>
      if word = ascii "any" then some (none, rest)
      else (pfAddr word).map fun addr => (some addr, rest)
  | [] => none

def parsePortList : List Bytes → Option (List Nat × List Bytes)
  | word :: rest =>
      if word = ascii "\x7d" then some ([], rest)
      else
        match pfPort word, parsePortList rest with
        | some port, some (ports, rest) => some (port :: ports, rest)
        | _, _ => none
  | [] => none

def parsePorts : List Bytes → Option (List Nat × List Bytes)
  | word :: rest =>
      if word = ascii "\x7b" then parsePortList rest
      else (pfPort word).map fun port => ([port], rest)
  | [] => none

def parseMatch (action : Action) (line : List Bytes) : Option Rule := do
  let (proto, line) ← parseProto line
  let line ← expect "from" line
  let (source, line) ← parseHost line
  let line ← expect "to" line
  let (destination, line) ← parseHost line
  let line ← expect "port" line
  let (ports, line) ← parsePorts line
  if line = [] ∨ line = [ascii "keep", ascii "state"] then
    some ⟨action, proto, source, destination, ports⟩
  else none

def parseRule (line : List Bytes) : Option Rule := do
  let (action, line) ← parseAction line
  let line ← expect "in" line
  let line ← expect "quick" line
  let line ← expect "proto" line
  parseMatch action line

/-- A line that is a rule; control characters are no part of the language. -/
def parseRuleLine (line : Bytes) : Option Rule :=
  if line.all (fun c => c = 9 || 32 ≤ c) then parseRule (words line) else none

def isRuleLine (line : Bytes) : Bool := line ≠ [] && line.head? ≠ some hash

def loadRules (text : Bytes) : Option (List Rule) :=
  ((Text.lines newline text).filter isRuleLine).mapM parseRuleLine

/-! ## Meaning -/

inductive Address where
  | v4 (addr : Addr4)
  | v6 (bytes : Bytes)
  deriving DecidableEq, Repr

structure Packet where
  proto : Proto
  source : Address
  destination : Address
  port : Nat
  deriving DecidableEq, Repr

def hostMatches (host : Option Addr4) (address : Address) : Bool :=
  match host with
  | none => true
  | some addr => address = .v4 addr

def Rule.matches (rule : Rule) (packet : Packet) : Bool :=
  rule.proto = packet.proto && hostMatches rule.source packet.source &&
    hostMatches rule.destination packet.destination && rule.ports.contains packet.port

def evaluate (rules : List Rule) (packet : Packet) : Option Action :=
  (rules.find? (·.matches packet)).map Rule.action

/-! ## Words -/

theorem isBlank_cases (h : isBlank c) : c = 32 ∨ c = 9 := by
  simpa [isBlank] using h

theorem words_append (h : isBlank blank) (front rest : Bytes) :
    words (front ++ blank :: rest) = words front ++ words rest := by
  have hend : ∀ text : Bytes, (Text.lines 32 (text ++ [32])).filter (· ≠ []) =
      (Text.lines 32 text).filter (· ≠ []) := by
    intro text
    obtain ⟨all, last, hall, hlast, rfl⟩ := Text.exists_unlines 32 text
    rw [append_assoc, Text.lines_unlines_append hall, Text.lines_unlines_append hall,
      Text.lines_line_append hlast, Text.lines_of_notMem hlast]
    by_cases hnil : last = []
    · simp [hnil, Text.lines]
    · simp [hnil, Text.lines]
  have hblank : (if blank = 9 then 32 else blank) = 32 := by
    rcases isBlank_cases h with rfl | rfl <;> rfl
  rw [words, map_append, map_cons, hblank, Text.lines_append_sep, filter_append,
    hend]
  rfl

theorem words_of_noBlank (hne : word ≠ []) (h : ∀ c ∈ word, isBlank c = false) :
    words word = [word] := by
  have hchars : ∀ c ∈ word, c ≠ 32 ∧ c ≠ 9 := by
    intro c hc
    have hblank := h c hc
    simpa [isBlank] using hblank
  have hmap : (word.map fun c => if c = 9 then 32 else c) = word := by
    calc (word.map fun c => if c = 9 then 32 else c) = word.map id :=
          map_congr_left fun c hc => if_neg (hchars c hc).2
      _ = word := map_id word
  have hspace : 32 ∉ word := fun hmem => (hchars 32 hmem).1 rfl
  rw [words, hmap, Text.lines_of_notMem hspace, if_neg hne]
  simp [hne]

theorem words_append_blanks (h : ∀ c ∈ blanks, isBlank c) :
    words (front ++ blanks) = words front := by
  induction blanks generalizing front with
  | nil => rw [append_nil]
  | cons c rest ih =>
    rw [forall_mem_cons] at h
    have hrest : words ([] ++ rest) = words [] := ih h.2
    rw [nil_append] at hrest
    rw [words_append h.1, hrest]
    exact append_nil _

theorem parseRuleLine_cut (hfront : parseRule (words front) = none)
    (hspace : ∀ c ∈ space, isSpace c) : parseRuleLine (front ++ space) = none := by
  unfold parseRuleLine
  split
  · case isTrue hprintable =>
    rw [all_append, Bool.and_eq_true, all_eq_true (l := space)] at hprintable
    have hblank : ∀ c ∈ space, isBlank c := by
      intro c hc
      have hprint := hprintable.2 c hc
      have hwhite := hspace c hc
      simp only [Bool.or_eq_true, decide_eq_true_iff, isSpace, Bool.and_eq_true] at hprint hwhite
      simp only [isBlank, Bool.or_eq_true, decide_eq_true_iff]
      rcases hwhite with hwhite | ⟨-, hhigh⟩
      · exact .inl hwhite
      · rcases hprint with hprint | hprint
        · exact .inr hprint
        · rw [UInt8.le_iff_toNat_le] at hprint hhigh
          exact absurd (Nat.le_trans hprint hhigh) (by decide)
    rw [words_append_blanks hblank, hfront]
  · rfl

theorem mapM_eq_none {α β : Type} {f : α → Option β} {items : List α} {item : α}
    (hitem : item ∈ items) (hnone : f item = none) : items.mapM f = none := by
  induction items with
  | nil => cases hitem
  | cons first rest ih =>
    rw [mapM_cons]
    rcases mem_cons.mp hitem with rfl | hrest
    · rw [hnone]
      rfl
    · rw [ih hrest]
      cases f first <;> rfl

theorem loadRules_eq_none {text line : Bytes} (hline : line ∈ Text.lines newline text)
    (hrule : isRuleLine line) (hnone : parseRuleLine line = none) : loadRules text = none :=
  mapM_eq_none (mem_filter.mpr ⟨hline, hrule⟩) hnone

end Scshr.Mac
