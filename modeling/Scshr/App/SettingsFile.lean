import Scshr.Lib.TextLines
import Scshr.Tunnel.Pairing

/-! The settings file (`app/settings.cpp`): one `key=value` a line. -/
namespace Scshr.App.SettingsFile

open Scshr.Common Scshr.Lib Scshr.Lib.Decimal Scshr.Tunnel List

structure Settings where
  macLabel : Bytes := []
  sshHost : Bytes := []
  sshPort : UInt16 := 22
  sshUser : Bytes := []
  sshHostkeySha256 : Bytes := []
  screenUser : Bytes := []
  rememberPassword : Bool := false
  audio : Bool := true
  display : Bytes := ascii "all"
  separateSession : Bool := true
  paired : Bool := false
  deriving DecidableEq

def isWs (c : UInt8) : Bool := c == 32 || c == 9 || c == 13 || c == newline

def trimWs (s : Bytes) : Bytes := Text.trim isWs s

def parseBool (v : Bytes) : Option Bool :=
  if v = ascii "1" ∨ v = ascii "true" ∨ v = ascii "yes" ∨ v = ascii "on" then some true
  else if v = ascii "0" ∨ v = ascii "false" ∨ v = ascii "no" ∨ v = ascii "off" then some false
  else none

/-- `std::strtol` to base ten, whose `long` has 32 bits. -/
def strtol (v : Bytes) : Int :=
  let (negative, digits) := splitSign (v.dropWhile isSpace)
  let value : Int := read (digits.takeWhile isDigit)
  if negative then max (-2 ^ 31) (-value) else min (2 ^ 31 - 1) value

/-- The assignment of a key; nothing where the key or its value is not understood. -/
def assign (k v : Bytes) (s : Settings) : Option Settings :=
  if k = ascii "mac_label" then some { s with macLabel := v }
  else if k = ascii "ssh_host" then some { s with sshHost := v }
  else if k = ascii "ssh_port" then
    let p := strtol v
    if 0 < p ∧ p < 65536 then some { s with sshPort := UInt16.ofNat p.toNat } else none
  else if k = ascii "ssh_user" then some { s with sshUser := v }
  else if k = ascii "ssh_hostkey_sha256" then some { s with sshHostkeySha256 := v }
  else if k = ascii "screen_user" then some { s with screenUser := v }
  else if k = ascii "remember_password" then
    (parseBool v).map fun out => { s with rememberPassword := out }
  else if k = ascii "audio" then (parseBool v).map fun out => { s with audio := out }
  else if k = ascii "display" then some { s with display := v }
  else if k = ascii "separate_session" then
    (parseBool v).map fun out => { s with separateSession := out }
  else if k = ascii "paired" then (parseBool v).map fun out => { s with paired := out }
  else none

/-- The key and the value of a line that has them. -/
def entry (line : Bytes) : Option (Bytes × Bytes) :=
  let line := trimWs line
  if line = [] ∨ line.head? = some 35 then none
  else if equalsSign ∉ line then none
  else
    some (trimWs (line.takeWhile (· ≠ equalsSign)),
      trimWs ((line.dropWhile (· ≠ equalsSign)).drop 1))

/-- A line of `parse_into`, with the number of recognised keys. -/
def readLine (state : Settings × Nat) (line : Bytes) : Settings × Nat :=
  match (entry line).bind fun pair => assign pair.1 pair.2 state.1 with
  | some s => (s, state.2 + 1)
  | none => state

def parseInto (text : Bytes) : Settings × Nat := (text.splitOn newline).foldl readLine ({}, 0)

def parseSettings (text : Bytes) : Settings := (parseInto text).1

def flag (on : Bool) : Bytes := if on then ascii "1" else ascii "0"

def entries (s : Settings) : List (Bytes × Bytes) :=
  [(ascii "mac_label", s.macLabel), (ascii "ssh_host", s.sshHost),
    (ascii "ssh_port", write s.sshPort.toNat), (ascii "ssh_user", s.sshUser),
    (ascii "ssh_hostkey_sha256", s.sshHostkeySha256), (ascii "screen_user", s.screenUser),
    (ascii "remember_password", flag s.rememberPassword), (ascii "audio", flag s.audio),
    (ascii "display", s.display), (ascii "separate_session", flag s.separateSession),
    (ascii "paired", flag s.paired)]

def settingLines (s : Settings) : List Bytes :=
  (entries s).map fun pair => pair.1 ++ equalsSign :: pair.2

def serializeSettings (s : Settings) : Bytes := Text.unlines newline (settingLines s)

def keys : List Bytes := (entries {}).map Prod.fst

/-- A blank line, a comment, a line without an equals sign or one with an unknown key. -/
def Foreign (line : Bytes) : Prop :=
  trimWs line = [] ∨ (trimWs line).head? = some 35 ∨ equalsSign ∉ line ∨
    trimWs ((trimWs line).takeWhile (· ≠ equalsSign)) ∉ keys

instance (line : Bytes) : Decidable (Foreign line) :=
  inferInstanceAs (Decidable (_ ∨ _ ∨ _ ∨ _))

/-- A value that a line can hold. -/
structure Plain (text : Bytes) : Prop where
  unbroken : newline ∉ text
  front : ∀ c ∈ text.head?, isWs c = false
  back : ∀ c ∈ text.getLast?, isWs c = false

def Settings.texts (s : Settings) : List Bytes :=
  [s.macLabel, s.sshHost, s.sshUser, s.sshHostkeySha256, s.screenUser, s.display]

/-! ## Lines -/

theorem assign_unknown (unknown : k ∉ keys) (v : Bytes) (s : Settings) : assign k v s = none := by
  simp only [keys, entries, map_cons, map_nil, mem_cons, not_or] at unknown
  simp only [assign, unknown, if_false]

theorem unknown_of_foreign (foreign : Foreign line) : ∀ pair ∈ entry line, pair.1 ∉ keys := by
  obtain empty | comment | missing | unknown := foreign
  · simp [entry, empty]
  · simp [entry, comment]
  · have absent : equalsSign ∉ trimWs line := fun inside => missing (Text.mem_of_mem_trim inside)
    simp [entry, absent]
  · rintro pair found
    rw [entry] at found
    split at found
    · cases found
    · split at found
      · cases found
      · cases found
        exact unknown

theorem readLine_foreign (foreign : Foreign line) (state : Settings × Nat) :
    readLine state line = state := by
  have unknown := unknown_of_foreign foreign
  rw [readLine]
  cases found : entry line with
  | none => rfl
  | some pair => rw [Option.bind_some, assign_unknown (unknown pair found)]

theorem readLine_ending (line : Bytes) (state : Settings × Nat) :
    readLine state (line ++ [13]) = readLine state line := by
  rw [readLine, entry, trimWs, Text.trim_concat (by decide), ← trimWs, ← entry, ← readLine]

theorem visible_of_mem_keys (known : k ∈ keys) :
    k ≠ [] ∧ ∀ c ∈ k, isWs c = false ∧ c ≠ equalsSign ∧ c ≠ 35 := by
  have visible : keys.all fun k =>
      k ≠ [] ∧ k.all fun c => isWs c = false ∧ c ≠ equalsSign ∧ c ≠ 35 := by decide
  simpa using all_eq_true.mp visible k known

theorem plain_of_visible (visible : ∀ c ∈ text, isWs c = false) : Plain text where
  unbroken inside := Bool.true_eq_false.mp (visible newline inside)
  front c first := visible c (mem_of_mem_head? first)
  back c last := visible c (mem_of_mem_getLast? last)

/-- An entry is read as it was written. -/
theorem entry_line (known : k ∈ keys) (plain : Plain v) :
    entry (k ++ equalsSign :: v) = some (k, v) := by
  obtain ⟨nonempty, visible⟩ := visible_of_mem_keys known
  have key := plain_of_visible fun c mem => (visible c mem).1
  have whole : trimWs (k ++ equalsSign :: v) = k ++ equalsSign :: v := by
    apply Text.trim_eq_self
    · rw [List.head?_append_of_ne_nil _ nonempty]
      exact key.front
    · rw [List.getLast?_append_cons]
      cases v with
      | nil =>
        rintro c ⟨⟩
        rfl
      | cons c rest =>
        rw [List.getLast?_cons_cons]
        exact plain.back
  have comment : ¬ (k ++ equalsSign :: v = [] ∨ (k ++ equalsSign :: v).head? = some 35) := by
    rw [List.head?_append_of_ne_nil _ nonempty]
    exact not_or.mpr ⟨by simp, fun first => (visible 35 (mem_of_mem_head? first)).2.2 rfl⟩
  have apart c (mem : c ∈ k) : decide (c ≠ equalsSign) = true := decide_eq_true (visible c mem).2.1
  rw [entry, whole, if_neg comment, if_neg (by simp), takeWhile_append_of_pos apart,
    dropWhile_append_of_pos apart]
  simp [trimWs, Text.trim_eq_self key.front key.back, Text.trim_eq_self plain.front plain.back]

/-! ## Files -/

theorem strtol_write (small : value < 65536) : strtol (write value) = value := by
  have digits := all_eq_true.mp (write_all value)
  have whole := takeWhile_eq_self_iff.mpr digits
  obtain ⟨c, rest, cut⟩ := exists_cons_of_ne_nil (write_ne_nil value)
  have digit := digits c (cut ▸ mem_cons_self)
  rw [strtol, cut, dropWhile_cons, not_isSpace_of_isDigit digit, if_neg Bool.false_ne_true,
    splitSign_digit digit, ← cut]
  dsimp only
  rw [whole, read_write, if_neg Bool.false_ne_true]
  omega

theorem mem_keys {pair : Bytes × Bytes} (mem : pair ∈ entries s) : pair.1 ∈ keys :=
  have names : (entries s).map Prod.fst = keys := rfl
  names ▸ mem_map_of_mem mem

theorem plain_entries {s : Settings} (texts : ∀ text ∈ s.texts, Plain text) :
    ∀ pair ∈ entries s, Plain pair.2 := by
  have number : Plain (write s.sshPort.toNat) := plain_of_visible fun c mem => by
    have digit := all_eq_true.mp (write_all _) c mem
    rw [isDigit] at digit
    rw [isWs, newline]
    grind
  have flags (on : Bool) : Plain (flag on) := plain_of_visible fun c mem => by
    cases on <;> cases mem_singleton.mp mem <;> rfl
  simp only [Settings.texts, entries, forall_mem_cons] at texts ⊢
  obtain ⟨label, host, user, key, screen, display, -⟩ := texts
  exact ⟨label, host, number, user, key, screen, flags _, flags _, display, flags _, flags _,
    forall_mem_nil _⟩

theorem assign_port (positive : 1 ≤ port) (s : Settings) :
    assign (ascii "ssh_port") (write port.toNat) s = some { s with sshPort := port } := by
  have small := port.toNat_lt
  have above := UInt16.le_iff_toNat_le.mp positive
  rw [UInt16.toNat_one] at above
  have read : assign (ascii "ssh_port") (write port.toNat) s =
      if 0 < strtol (write port.toNat) ∧ strtol (write port.toNat) < 65536 then
        some { s with sshPort := UInt16.ofNat (strtol (write port.toNat)).toNat }
      else none := rfl
  rw [read, strtol_write small, if_pos ⟨by omega, by omega⟩, Int.toNat_natCast,
    UInt16.ofNat_toNat]

theorem foldl_readLine_filter (lines : List Bytes) (state : Settings × Nat) :
    lines.foldl readLine state = (lines.filter (¬ Foreign ·)).foldl readLine state := by
  induction lines generalizing state with
  | nil => rfl
  | cons line lines ih =>
    rw [foldl_cons, filter_cons, ih]
    split
    · rfl
    · next foreign => rw [readLine_foreign (by simpa using foreign)]

/-- The lines of a file as it is written, in their order. -/
theorem foldl_settingLines {s : Settings} (positive : 1 ≤ s.sshPort)
    (texts : ∀ text ∈ s.texts, Plain text) : (settingLines s).foldl readLine ({}, 0) = (s, 11) := by
  have reads (state : Settings × Nat) (pair) (mem : pair ∈ entries s) :
      readLine state (pair.1 ++ equalsSign :: pair.2) =
        match assign pair.1 pair.2 state.1 with
        | some s => (s, state.2 + 1)
        | none => state := by
    rw [readLine, entry_line (mem_keys mem) (plain_entries texts pair mem)]
    rfl
  rw [settingLines, foldl_map, foldl_ext _ _ _ reads]
  obtain ⟨label, host, port, user, key, screen, remember, audio, display, separate, paired⟩ := s
  simp only [entries, foldl_cons, foldl_nil, assign_port positive]
  cases remember <;> cases audio <;> cases separate <;> cases paired <;> rfl

/-- A file is read back as it was written, also with lines of others between its own and with
other line ends. -/
theorem parseSettings_serializeSettings (s : Settings) (positive : 1 ≤ s.sshPort)
    (texts : ∀ text ∈ s.texts, Plain text) :
    parseSettings (serializeSettings s) = s ∧
    ∀ (lines : List Bytes) (crlf : Bool), (∀ line ∈ lines, newline ∉ line) →
      lines.filter (¬ Foreign ·) = settingLines s →
      parseSettings (Text.unlines newline (if crlf then lines.map (· ++ [13]) else lines)) = s := by
  have woven (lines : List Bytes) (crlf : Bool) (unbroken : ∀ line ∈ lines, newline ∉ line)
      (own : lines.filter (¬ Foreign ·) = settingLines s) :
      parseSettings (Text.unlines newline (if crlf then lines.map (· ++ [13]) else lines)) = s := by
    have plain : lines.foldl readLine ({}, 0) = (s, 11) := by
      rw [foldl_readLine_filter, own, foldl_settingLines positive texts]
    rw [parseSettings, parseInto]
    cases crlf with
    | false =>
      rw [if_neg Bool.false_ne_true, Text.splitOn_unlines unbroken, foldl_append, plain]
      rfl
    | true =>
      have other : newline ≠ 13 := by decide
      have ended : ∀ line ∈ lines.map (· ++ [13]), newline ∉ line := by simpa [other] using unbroken
      have same : (fun state line => readLine state (line ++ [13])) = readLine :=
        funext fun state => funext fun line => readLine_ending line state
      rw [if_pos rfl, Text.splitOn_unlines ended, foldl_append, foldl_map, same, plain]
      rfl
  refine ⟨woven (settingLines s) false ?_ ?_, woven⟩
  · refine forall_mem_map.mpr fun pair mem => ?_
    have key := plain_of_visible fun c inside => ((visible_of_mem_keys (mem_keys mem)).2 c inside).1
    have other : newline ≠ equalsSign := by decide
    simp [key.unbroken, (plain_entries texts pair mem).unbroken, other]
  · refine filter_eq_self.mpr (forall_mem_map.mpr fun pair mem => ?_)
    have own := entry_line (mem_keys mem) (plain_entries texts pair mem)
    exact decide_eq_true fun foreign => unknown_of_foreign foreign pair own (mem_keys mem)

theorem parseSettings_commented :
    let s : Settings := { macLabel := ascii "a=b#c", sshPort := 2222 }
    let lines := ascii "# note" :: ascii "newer=1" :: [] :: settingLines s ++ [ascii "no value"]
    parseSettings (Text.unlines newline (lines.map (· ++ [13]))) = s := by
  intro s lines
  have texts : ∀ text ∈ s.texts, Plain text := fun text mem => plain_of_visible (by
    have visible : s.texts.all (·.all (isWs · = false)) := by decide
    simpa using all_eq_true.mp visible text mem)
  have unbroken : lines.all (newline ∉ ·) := by decide +kernel
  exact (parseSettings_serializeSettings s (by decide) texts).2 lines true
    (by simpa using unbroken) (by decide +kernel)

end Scshr.App.SettingsFile
