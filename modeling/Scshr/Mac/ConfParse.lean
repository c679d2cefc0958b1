import Scshr.Mac.ConfText
import Mathlib.Data.List.Perm.Basic

/-! The configuration parser fails closed: what it accepts has the sections and keys of
the tunnel and no others. -/
namespace Scshr.Mac

open Common Lib Lib.Decimal Tunnel List

/-! ## What a text says -/

def statements (text : Bytes) : List Bytes :=
  ((text.splitOn newline).map confLine).filter (· ≠ [])

def opened (line : Bytes) : Option ConfSection :=
  if line = ConfSection.interface.header then some .interface
  else if line = ConfSection.peer.header then some .peer
  else none

def lastSection (lines : List Bytes) : Option ConfSection :=
  lines.foldl (fun current line => if line.head? = some bracket then opened line else current) none

/-- The key lines of a text, each with the section it stands in. -/
def placed : Option ConfSection → List Bytes → List (Option ConfSection × Bytes)
  | _, [] => []
  | current, line :: rest =>
      if line.head? = some bracket then placed (opened line) rest
      else (current, line) :: placed current rest

section

variable (lowerRunes : Bytes → Bytes)

def entries (inside : ConfSection) (lines : List Bytes) : List (Bytes × Bytes) :=
  (placed none lines).filterMap fun (current, line) =>
    if current = some inside then confEntry lowerRunes line else none

structure Accepted (text : Bytes) (conf : Conf) : Prop where
  interfaces : (statements text).count ConfSection.interface.header = 1
  peers : (statements text).count ConfSection.peer.header = if conf.hasPeer then 1 else 0
  headers : ∀ line ∈ statements text, line.head? = some bracket →
    ∃ inside : ConfSection, line = inside.header
  places : ∀ entry ∈ placed none (statements text), entry.1 ≠ none ∧
    confEntry lowerRunes entry.2 ≠ none
  interfaceKeys : ((entries lowerRunes .interface (statements text)).map Prod.fst).Perm
    ConfSection.interface.keys
  peerKeys : ((entries lowerRunes .peer (statements text)).map Prod.fst).Perm
    (if conf.hasPeer then ConfSection.peer.keys else [])
  privateKey : CanonicalKey conf.privateKey ∧
    (ascii "privatekey", conf.privateKey) ∈ entries lowerRunes .interface (statements text)
  listenPort : ∃ val, (ascii "listenport", val) ∈
      entries lowerRunes .interface (statements text) ∧
    atoi val = some (conf.listenPort.toNat : Int) ∧ 1 ≤ conf.listenPort.toNat
  address : ∃ host, 1 ≤ host ∧ host ≤ 254 ∧ conf.address = some (tunnelHost host) ∧
    (ascii "address", hostSpelling host ++ ascii "/32") ∈
      entries lowerRunes .interface (statements text)
  peerPublicKey : conf.hasPeer → CanonicalKey conf.peerPublicKey ∧
    (ascii "publickey", conf.peerPublicKey) ∈ entries lowerRunes .peer (statements text)
  peerAllowedIp : conf.hasPeer → ∃ host val, 1 ≤ host ∧ host ≤ 254 ∧
    conf.peerAllowedIp = some (tunnelHost host) ∧ conf.peerAllowedIp ≠ conf.address ∧
    trimSpace val = hostSpelling host ++ ascii "/32" ∧
    (ascii "allowedips", val) ∈ entries lowerRunes .peer (statements text)

end

/-! ## One more line -/

section

variable {lowerRunes : Bytes → Bytes} {lines : List Bytes} {line : Bytes}

theorem lastSection_concat :
    lastSection (lines ++ [line]) =
      if line.head? = some bracket then opened line else lastSection lines := by
  rw [lastSection, foldl_append]
  rfl

theorem placed_concat :
    placed none (lines ++ [line]) = placed none lines ++
      if line.head? = some bracket then [] else [(lastSection lines, line)] := by
  have hfrom : ∀ current, placed current (lines ++ [line]) = placed current lines ++
      if line.head? = some bracket then []
      else [(lines.foldl (fun current line =>
        if line.head? = some bracket then opened line else current) current, line)] := by
    induction lines with
    | nil =>
      intro current
      simp only [nil_append, placed, foldl_nil]
    | cons next rest ih =>
      intro current
      simp only [cons_append, placed, foldl_cons]
      split
      · exact ih (opened next)
      · rw [ih current, cons_append]
  exact hfrom none

theorem entries_header (h : line.head? = some bracket) (inside : ConfSection) :
    entries lowerRunes inside (lines ++ [line]) = entries lowerRunes inside lines := by
  rw [entries, placed_concat, if_pos h, append_nil]
  rfl

theorem entries_entry (h : line.head? ≠ some bracket)
    (hentry : confEntry lowerRunes line = some (key, val)) (inside : ConfSection) :
    entries lowerRunes inside (lines ++ [line]) = entries lowerRunes inside lines ++
      if lastSection lines = some inside then [(key, val)] else [] := by
  rw [entries, placed_concat, if_neg h, filterMap_append]
  simp only [filterMap_cons, filterMap_nil]
  by_cases hinside : lastSection lines = some inside
  · simp only [hinside, if_true, hentry]
    rfl
  · simp only [hinside, if_false]
    rfl

end

/-! ## Steps of the loop -/

def Parse.enter (state : Parse) : ConfSection → Parse
  | .interface => { state with
      current := some .interface
      seenInterface := state.seenInterface + 1 }
  | .peer => { state with
      current := some .peer
      seenPeer := state.seenPeer + 1 }

def Parse.entered (state : Parse) : ConfSection → Nat
  | .interface => state.seenInterface
  | .peer => state.seenPeer

variable {lowerRunes : Bytes → Bytes} {state : Parse} {conf : Conf}

theorem head?_header (inside : ConfSection) : inside.header.head? = some bracket := by
  cases inside <;> rfl

theorem opened_header (inside : ConfSection) : opened inside.header = some inside := by
  cases inside <;> decide

theorem header_injective {inside other : ConfSection} (h : inside.header = other.header) :
    inside = other := by
  have hopened := congrArg opened h
  rw [opened_header, opened_header] at hopened
  exact Option.some_inj.mp hopened

theorem parseLine_cases (h : parseLine lowerRunes state line = .ok parsed) :
    (∃ inside : ConfSection, line = inside.header ∧ parsed = state.enter inside) ∨
    (line.head? ≠ some bracket ∧ ∃ inside key val conf, state.current = some inside ∧
      confEntry lowerRunes line = some (key, val) ∧
      dupKey inside key state.seenPeer ∉ state.seen ∧ key ∈ inside.keys ∧
      setField inside state.conf key val = .ok conf ∧
      parsed = { state with
        conf := conf
        seen := dupKey inside key state.seenPeer :: state.seen }) := by
  unfold parseLine at h
  split at h
  · left
    unfold parseHeader at h
    split at h
    · case isTrue hline =>
      cases h
      exact ⟨.interface, hline, rfl⟩
    · split at h
      · case isTrue hline =>
        cases h
        exact ⟨.peer, hline, rfl⟩
      · cases h
  · case isFalse hhead =>
    right
    refine ⟨hhead, ?_⟩
    unfold parseEntry at h
    split at h
    · cases h
    · case h_2 key val hentry =>
      split at h
      · cases h
      · case h_2 inside hcurrent =>
        dsimp only at h
        split at h
        · cases h
        · case isFalse hfresh =>
          split at h
          · cases h
          · case isFalse hkey =>
            split at h
            · cases h
            · case h_2 conf hset =>
              cases h
              exact ⟨inside, key, val, conf, hcurrent, hentry, hfresh, not_not.mp hkey, hset, rfl⟩

/-! ## Fields -/

structure Fields (lowerRunes : Bytes → Bytes) (lines : List Bytes) (conf : Conf) : Prop where
  privateKey : conf.privateKey ≠ [] → CanonicalKey conf.privateKey ∧
    (ascii "privatekey", conf.privateKey) ∈ entries lowerRunes .interface lines
  listenPort : conf.listenPort ≠ 0 → ∃ val,
    (ascii "listenport", val) ∈ entries lowerRunes .interface lines ∧
      atoi val = some (conf.listenPort.toNat : Int)
  address : ∀ addr, conf.address = some addr → ∃ val,
    (ascii "address", val) ∈ entries lowerRunes .interface lines ∧ hostInTunnel val = .ok addr
  peerPublicKey : conf.peerPublicKey ≠ [] → CanonicalKey conf.peerPublicKey ∧
    (ascii "publickey", conf.peerPublicKey) ∈ entries lowerRunes .peer lines
  peerAllowedIp : ∀ addr, conf.peerAllowedIp = some addr → ∃ val,
    (ascii "allowedips", val) ∈ entries lowerRunes .peer lines ∧
      hostInTunnel (trimSpace val) = .ok addr
  hasPeer : conf.hasPeer = false

section

variable {lines more : List Bytes} {next : Conf} {key val : Bytes}

theorem Fields.mono (h : Fields lowerRunes lines conf)
    (hmore : ∀ inside, entries lowerRunes inside lines ⊆ entries lowerRunes inside more) :
    Fields lowerRunes more conf where
  privateKey hne := ⟨(h.privateKey hne).1, hmore _ (h.privateKey hne).2⟩
  listenPort hne := by
    obtain ⟨val, hmem, hval⟩ := h.listenPort hne
    exact ⟨val, hmore _ hmem, hval⟩
  address addr haddr := by
    obtain ⟨val, hmem, hval⟩ := h.address addr haddr
    exact ⟨val, hmore _ hmem, hval⟩
  peerPublicKey hne := ⟨(h.peerPublicKey hne).1, hmore _ (h.peerPublicKey hne).2⟩
  peerAllowedIp addr haddr := by
    obtain ⟨val, hmem, hval⟩ := h.peerAllowedIp addr haddr
    exact ⟨val, hmore _ hmem, hval⟩
  hasPeer := h.hasPeer

theorem Fields.setInterface (h : Fields lowerRunes lines conf)
    (hmem : (key, val) ∈ entries lowerRunes .interface lines)
    (hset : setInterface conf key val = .ok next) : Fields lowerRunes lines next := by
  unfold Mac.setInterface at hset
  split at hset
  · case isTrue hkey =>
    split at hset
    · cases hset
    · case h_2 raw hdecode =>
      cases hset
      exact { h with privateKey := fun _ => ⟨canonicalKey_of_decodeKey hdecode, hkey ▸ hmem⟩ }
  · split at hset
    · case isTrue hkey =>
      split at hset
      · cases hset
      · case h_2 addr hhost =>
        cases hset
        refine { h with address := ?_ }
        intro other hother
        cases hother
        exact ⟨val, hkey ▸ hmem, hhost⟩
    · split at hset
      · case isTrue hkey =>
        split at hset
        · cases hset
        · case h_2 port hport =>
          split at hset
          · cases hset
          · case isFalse hrange =>
            cases hset
            refine { h with listenPort := fun _ => ⟨val, hkey ▸ hmem, ?_⟩ }
            rw [not_or, Int.not_lt, Int.not_lt] at hrange
            rw [hport, UInt16.toNat_ofNat', Nat.mod_eq_of_lt (by omega)]
            congr 1
            omega
      · cases hset
        exact h

theorem Fields.setPeer (h : Fields lowerRunes lines conf)
    (hmem : (key, val) ∈ entries lowerRunes .peer lines) (hset : setPeer conf key val = .ok next) :
    Fields lowerRunes lines next := by
  unfold Mac.setPeer at hset
  split at hset
  · case isTrue hkey =>
    split at hset
    · cases hset
    · case h_2 raw hdecode =>
      cases hset
      exact { h with peerPublicKey := fun _ => ⟨canonicalKey_of_decodeKey hdecode, hkey ▸ hmem⟩ }
  · split at hset
    · case isTrue hkey =>
      split at hset
      · case h_1 part hsplit =>
        have hval : part = val := by
          have hjoin : [comma].intercalate (val.splitOn comma) = val :=
            intercalate_splitOn comma
          rw [hsplit, intercalate_singleton] at hjoin
          exact hjoin
        split at hset
        · cases hset
        · case h_2 addr hhost =>
          cases hset
          refine { h with peerAllowedIp := ?_ }
          intro other hother
          cases hother
          exact ⟨val, hkey ▸ hmem, hval ▸ hhost⟩
      · cases hset
    · cases hset
      exact h

theorem Fields.setField (h : Fields lowerRunes lines conf)
    (hmem : (key, val) ∈ entries lowerRunes inside lines)
    (hset : setField inside conf key val = .ok next) : Fields lowerRunes lines next := by
  cases inside with
  | interface => exact h.setInterface hmem hset
  | peer => exact h.setPeer hmem hset

end

/-! ## The loop -/

/-- What holds behind the lines read so far.  While a section is entered for the first
time, the table of keys seen holds all of its keys. -/
structure ReadSoFar (lowerRunes : Bytes → Bytes) (lines : List Bytes) (state : Parse) : Prop where
  current : state.current = lastSection lines
  started : ∀ inside, state.current = some inside → 0 < state.entered inside
  counts : ∀ inside : ConfSection, state.entered inside = lines.count inside.header
  headers : ∀ line ∈ lines, line.head? = some bracket → ∃ inside : ConfSection, line = inside.header
  places : ∀ entry ∈ placed none lines, entry.1 ≠ none ∧ confEntry lowerRunes entry.2 ≠ none
  allowed : ∀ inside, ∀ entry ∈ entries lowerRunes inside lines, entry.1 ∈ inside.keys
  unentered : ∀ inside, state.entered inside = 0 → entries lowerRunes inside lines = []
  once : ∀ inside, state.entered inside ≤ 1 →
    ((entries lowerRunes inside lines).map Prod.fst).Nodup
  seen : ∀ inside, state.current = some inside → state.entered inside ≤ 1 →
    ∀ entry ∈ entries lowerRunes inside lines, dupKey inside entry.1 state.seenPeer ∈ state.seen
  fields : Fields lowerRunes lines state.conf

theorem Parse.entered_enter (state : Parse) (inside other : ConfSection) :
    (state.enter inside).entered other =
      state.entered other + if inside = other then 1 else 0 := by
  cases inside <;> cases other <;> rfl

theorem Parse.current_enter (state : Parse) (inside : ConfSection) :
    (state.enter inside).current = some inside := by
  cases inside <;> rfl

theorem Parse.conf_enter (state : Parse) (inside : ConfSection) :
    (state.enter inside).conf = state.conf := by
  cases inside <;> rfl

section

variable {lines : List Bytes}

theorem readSoFar_start : ReadSoFar lowerRunes [] {} where
  current := rfl
  started := by simp
  counts := by
    intro inside
    cases inside <;> rfl
  headers := by simp
  places := by simp [placed]
  allowed := by simp [entries, placed]
  unentered := by simp [entries, placed]
  once := by simp [entries, placed]
  seen := by simp [entries, placed]
  fields := ⟨by simp, by simp, by simp, by simp, by simp, rfl⟩

/-- A header: nothing has been read in a section that is entered for the first time. -/
theorem ReadSoFar.enter (h : ReadSoFar lowerRunes lines state) (inside : ConfSection) :
    ReadSoFar lowerRunes (lines ++ [inside.header]) (state.enter inside) := by
  have hhead := head?_header inside
  have hentries : ∀ other, entries lowerRunes other (lines ++ [inside.header]) =
      entries lowerRunes other lines := entries_header hhead
  refine {
    current := ?_
    started := ?_
    counts := ?_
    headers := ?_
    places := ?_
    allowed := ?_
    unentered := ?_
    once := ?_
    seen := ?_
    fields := ?_ }
  · rw [state.current_enter, lastSection_concat, if_pos hhead, opened_header]
  · intro other hother
    rw [state.current_enter, Option.some_inj] at hother
    rw [state.entered_enter, if_pos hother]
    exact Nat.succ_pos _
  · intro other
    rw [state.entered_enter, h.counts other, count_append, count_singleton]
    by_cases hother : inside = other
    · simp [hother]
    · have hne : inside.header ≠ other.header := fun heq => hother (header_injective heq)
      simp [hother, hne]
  · intro line hline hbracket
    rw [mem_append, mem_singleton] at hline
    rcases hline with hline | hline
    · exact h.headers line hline hbracket
    · exact ⟨inside, hline⟩
  · rw [placed_concat, if_pos hhead, append_nil]
    exact h.places
  · intro other
    rw [hentries other]
    exact h.allowed other
  · intro other hzero
    rw [state.entered_enter] at hzero
    rw [hentries other]
    exact h.unentered other (Nat.eq_zero_of_add_eq_zero_right hzero)
  · intro other hfirst
    rw [state.entered_enter] at hfirst
    rw [hentries other]
    exact h.once other (Nat.le_of_add_right_le hfirst)
  · intro other hother hfirst
    rw [state.current_enter, Option.some_inj] at hother
    rw [state.entered_enter, if_pos hother] at hfirst
    rw [hentries other, h.unentered other (by omega)]
    simp
  · rw [state.conf_enter]
    refine h.fields.mono ?_
    intro other
    rw [hentries other]
    exact List.Subset.refl _

/-- An entry: its key is not in the table, so it is new to its section. -/
theorem ReadSoFar.entry (h : ReadSoFar lowerRunes lines state) (hhead : line.head? ≠ some bracket)
    (hcurrent : state.current = some inside) (hentry : confEntry lowerRunes line = some (key, val))
    (hfresh : dupKey inside key state.seenPeer ∉ state.seen) (hkey : key ∈ inside.keys)
    (hset : setField inside state.conf key val = .ok conf) :
    ReadSoFar lowerRunes (lines ++ [line])
      { state with conf := conf, seen := dupKey inside key state.seenPeer :: state.seen } := by
  have hlast : lastSection lines = some inside := h.current ▸ hcurrent
  have hsame : entries lowerRunes inside (lines ++ [line]) =
      entries lowerRunes inside lines ++ [(key, val)] := by
    rw [entries_entry hhead hentry, if_pos hlast]
  have hother : ∀ other, other ≠ inside → entries lowerRunes other (lines ++ [line]) =
      entries lowerRunes other lines := by
    intro other hne
    rw [entries_entry hhead hentry, hlast, if_neg, append_nil]
    exact fun heq => hne (Option.some_inj.mp heq).symm
  have hsubset : ∀ other, entries lowerRunes other lines ⊆
      entries lowerRunes other (lines ++ [line]) := by
    intro other
    rw [entries_entry hhead hentry]
    exact subset_append_left _ _
  have hplain : ∀ other : ConfSection, line ≠ other.header := by
    rintro other rfl
    exact hhead (head?_header other)
  refine {
    current := ?_
    started := h.started
    counts := ?_
    headers := ?_
    places := ?_
    allowed := ?_
    unentered := ?_
    once := ?_
    seen := ?_
    fields := ?_ }
  · rw [lastSection_concat, if_neg hhead]
    exact h.current
  · intro other
    have hnew : other.header ∉ [line] := by
      rw [mem_singleton]
      exact (hplain other).symm
    rw [count_append, count_eq_zero_of_not_mem hnew, Nat.add_zero]
    exact h.counts other
  · intro next hnext hbracket
    rw [mem_append, mem_singleton] at hnext
    rcases hnext with hnext | hnext
    · exact h.headers next hnext hbracket
    · exact absurd (hnext ▸ hbracket) hhead
  · intro entry hmem
    rw [placed_concat, if_neg hhead, mem_append, mem_singleton] at hmem
    rcases hmem with hmem | rfl
    · exact h.places entry hmem
    · exact ⟨by simp [hlast], by simp [hentry]⟩
  · intro other entry hmem
    by_cases hne : other = inside
    · subst hne
      rw [hsame, mem_append, mem_singleton] at hmem
      rcases hmem with hmem | rfl
      · exact h.allowed other entry hmem
      · exact hkey
    · rw [hother other hne] at hmem
      exact h.allowed other entry hmem
  · intro other hzero
    have hne : other ≠ inside := by
      rintro rfl
      exact absurd hzero (Nat.ne_of_gt (h.started other hcurrent))
    rw [hother other hne]
    exact h.unentered other hzero
  · intro other hfirst
    by_cases hne : other = inside
    · subst hne
      rw [hsame, map_append, map_singleton, nodup_append]
      refine ⟨h.once other hfirst, nodup_singleton key, ?_⟩
      intro old hold fresh hkeyMem heq
      obtain ⟨entry, hmem, rfl⟩ := mem_map.mp hold
      rw [mem_singleton] at hkeyMem
      have hsameKey : entry.1 = key := heq.trans hkeyMem
      apply hfresh
      rw [← hsameKey]
      exact h.seen other hcurrent hfirst entry hmem
    · rw [hother other hne]
      exact h.once other hfirst
  · intro other hnow hfirst entry hmem
    obtain rfl : inside = other := Option.some_inj.mp (hcurrent.symm.trans hnow)
    rw [hsame, mem_append, mem_singleton] at hmem
    rcases hmem with hmem | rfl
    · exact mem_cons_of_mem _ (h.seen inside hcurrent hfirst entry hmem)
    · exact mem_cons_self
  · refine (h.fields.mono hsubset).setField ?_ hset
    rw [hsame]
    simp

theorem ReadSoFar.step (h : ReadSoFar lowerRunes lines state)
    (hstep : parseLine lowerRunes state line = .ok parsed) :
    ReadSoFar lowerRunes (lines ++ [line]) parsed := by
  rcases parseLine_cases hstep with ⟨inside, rfl, rfl⟩ | ⟨hhead, hrest⟩
  · exact h.enter inside
  · obtain ⟨inside, key, val, conf, hcurrent, hentry, hfresh, hkey, hset, rfl⟩ := hrest
    exact h.entry hhead hcurrent hentry hfresh hkey hset

theorem ReadSoFar.run (h : ReadSoFar lowerRunes lines state) {raws : List Bytes} {number : Nat}
    (hrun : parseLines lowerRunes number raws state = .ok last) :
    ReadSoFar lowerRunes (lines ++ (raws.map confLine).filter (· ≠ [])) last := by
  induction raws generalizing lines state number with
  | nil =>
    rw [parseLines] at hrun
    cases hrun
    simpa using h
  | cons raw rest ih =>
    rw [parseLines] at hrun
    split at hrun
    · case isTrue hempty =>
      have hrest := ih h hrun
      simpa [hempty] using hrest
    · case isFalse hline =>
      split at hrun
      · cases hrun
      · case h_2 next hstep =>
        have hrest := ih (h.step hstep) hrun
        simpa [hline] using hrest

end

/-! ## Accepted texts -/

theorem perm_keys {found keys : List Bytes} (hfound : found.Nodup) (hkeys : keys.Nodup)
    (hallowed : ∀ key ∈ found, key ∈ keys) (hall : ∀ key ∈ keys, key ∈ found) :
    found.Perm keys :=
  (perm_ext_iff_of_nodup hfound hkeys).mpr fun key => ⟨hallowed key, hall key⟩

theorem nodup_keys (inside : ConfSection) : inside.keys.Nodup := by
  cases inside <;> decide +kernel

theorem finishConf_ok (h : finishConf state = .ok conf) :
    state.seenInterface = 1 ∧ state.conf.privateKey ≠ [] ∧ state.conf.address ≠ none ∧
      state.conf.listenPort ≠ 0 ∧
      ((state.seenPeer = 0 ∧ conf = state.conf) ∨
        (state.seenPeer = 1 ∧ state.conf.peerPublicKey ≠ [] ∧ state.conf.peerAllowedIp ≠ none ∧
          state.conf.peerAllowedIp ≠ state.conf.address ∧
          conf = { state.conf with hasPeer := true })) := by
  unfold finishConf at h
  simp only [Tunnel.check_ok_iff, not_not] at h
  obtain ⟨hinterface, hpeers, hprivate, haddress, hport, h⟩ := h
  refine ⟨hinterface, hprivate, haddress, hport, ?_⟩
  by_cases hpeer : state.seenPeer = 1
  · simp only [if_pos hpeer, Tunnel.check_ok_iff, Except.ok.injEq] at h
    obtain ⟨hpublic, hallowed, hown, rfl⟩ := h
    exact .inr ⟨hpeer, hpublic, hallowed, hown, rfl⟩
  · rw [if_neg hpeer, Except.ok.injEq] at h
    exact .inl ⟨by omega, h.symm⟩

theorem accepted_of_parseConf {text : Bytes} (h : parseConf lowerRunes text = .ok conf) :
    Accepted lowerRunes text conf := by
  unfold parseConf at h
  split at h
  · cases h
  · case h_2 state hrun =>
    have hread : ReadSoFar lowerRunes (statements text) state := readSoFar_start.run hrun
    obtain ⟨hinterface, hprivate, haddress, hport, hpeer⟩ := finishConf_ok h
    have hprivate := hread.fields.privateKey hprivate
    obtain ⟨addr, haddr⟩ := Option.ne_none_iff_exists'.mp haddress
    obtain ⟨addrVal, haddrMem, hhost⟩ := hread.fields.address addr haddr
    obtain ⟨host, hlow, hhigh, rfl, rfl⟩ := hostInTunnel_ok_iff.mp hhost
    obtain ⟨portVal, hportMem, hportVal⟩ := hread.fields.listenPort hport
    have hinterfaceKeys : ((entries lowerRunes .interface (statements text)).map Prod.fst).Perm
        ConfSection.interface.keys := by
      apply perm_keys (hread.once .interface (Nat.le_of_eq hinterface)) (nodup_keys .interface)
      · simpa using hread.allowed .interface
      · simp only [ConfSection.keys, forall_mem_cons]
        exact ⟨mem_map_of_mem hprivate.2, mem_map_of_mem haddrMem,
          mem_map_of_mem hportMem, by simp⟩
    have hpos : 1 ≤ state.conf.listenPort.toNat := by
      apply Nat.pos_of_ne_zero
      intro hzero
      exact hport (UInt16.toNat_inj.mp hzero)
    rcases hpeer with ⟨hpeers, rfl⟩ | ⟨hpeers, hpublic, hallowed, hown, rfl⟩
    · have hnone := hread.fields.hasPeer
      exact {
        interfaces := (hread.counts .interface).symm.trans hinterface
        peers := by
          rw [hnone]
          exact (hread.counts .peer).symm.trans hpeers
        headers := hread.headers
        places := hread.places
        interfaceKeys := hinterfaceKeys
        peerKeys := by
          rw [hread.unentered .peer hpeers, hnone]
          exact List.Perm.nil
        privateKey := hprivate
        listenPort := ⟨portVal, hportMem, hportVal, hpos⟩
        address := ⟨host, hlow, hhigh, haddr, haddrMem⟩
        peerPublicKey := by simp [hnone]
        peerAllowedIp := by simp [hnone] }
    · have hpublic := hread.fields.peerPublicKey hpublic
      obtain ⟨peerAddr, hpeerAddr⟩ := Option.ne_none_iff_exists'.mp hallowed
      obtain ⟨peerVal, hpeerMem, hpeerHost⟩ := hread.fields.peerAllowedIp peerAddr hpeerAddr
      obtain ⟨peerHost, hpeerLow, hpeerHigh, rfl, hpeerVal⟩ := hostInTunnel_ok_iff.mp hpeerHost
      exact {
        interfaces := (hread.counts .interface).symm.trans hinterface
        peers := (hread.counts .peer).symm.trans hpeers
        headers := hread.headers
        places := hread.places
        interfaceKeys := hinterfaceKeys
        peerKeys := by
          apply perm_keys (hread.once .peer (Nat.le_of_eq hpeers)) (nodup_keys .peer)
          · simpa using hread.allowed .peer
          · simp only [ConfSection.keys, forall_mem_cons]
            exact ⟨mem_map_of_mem hpublic.2, mem_map_of_mem hpeerMem, by simp⟩
        privateKey := hprivate
        listenPort := ⟨portVal, hportMem, hportVal, hpos⟩
        address := ⟨host, hlow, hhigh, haddr, haddrMem⟩
        peerPublicKey := fun _ => hpublic
        peerAllowedIp := fun _ => ⟨peerHost, peerVal, hpeerLow, hpeerHigh, hpeerAddr, hown,
          hpeerVal, hpeerMem⟩ }

theorem uapi_allowedIps (hprivate : CanonicalKey conf.privateKey)
    (hpublic : conf.hasPeer → CanonicalKey conf.peerPublicKey) :
    ∃ document, uapi conf = .ok document ∧
      document.filter (ascii "allowed_ip=").isPrefixOf =
        if conf.hasPeer then
          [ascii "allowed_ip=" ++ (conf.peerAllowedIp.map Addr4.text).getD (ascii "invalid IP") ++
            ascii "/32"]
        else [] := by
  obtain ⟨priv, hpriv⟩ := decodeKey_ok_of_canonical hprivate
  by_cases hpeer : conf.hasPeer
  · obtain ⟨pub, hpub⟩ := decodeKey_ok_of_canonical (hpublic hpeer)
    refine ⟨_, by simp only [uapi, hpriv, hpeer, if_true, hpub]; rfl, ?_⟩
    rw [if_pos hpeer]
    rfl
  · refine ⟨_, by simp only [uapi, hpriv, hpeer]; rfl, ?_⟩
    rw [if_neg hpeer]
    rfl

end Scshr.Mac
