import Scshr.Lib.Ini
import Scshr.Tunnel.Addresses
import Scshr.Tunnel.Base64

/-! Encoding and decoding of the pairing descriptors are inverse to each other: each
layer of a code, the tag, the base64url text, the lines, the port, has one spelling. -/
namespace Scshr.Tunnel

open Common Lib Lib.Decimal List
open Lib.Ini (Word isWordChar)

/-! ## One line a field -/

def lines (fields : List (String × Bytes)) : Bytes :=
  [newline].intercalate (fields.map fun entry => field entry.1 entry.2)

variable {rest value body s code ip host win : Bytes} {key name : String} {keys : List String}
  {values : List Bytes} {port : UInt16} {c : UInt8} {d : ServerDescriptor}

theorem lines_singleton (entry : String × Bytes) : lines [entry] = field entry.1 entry.2 :=
  intercalate_singleton

theorem lines_cons_cons (entry next : String × Bytes) (rest : List (String × Bytes)) :
    lines (entry :: next :: rest) =
      field entry.1 entry.2 ++ newline :: lines (next :: rest) := by
  rw [lines, map_cons, map_cons, intercalate_cons_cons, append_assoc]
  rfl

structure Plain (value : Bytes) : Prop where
  nonempty : value ≠ []
  line : newline ∉ value

theorem newline_notMem_field (hkey : newline ∉ ascii key) (hvalue : newline ∉ value) :
    newline ∉ field key value := by
  intro hmem
  rw [field, mem_append, mem_append] at hmem
  obtain (hmem | hmem) | hmem := hmem
  · exact hkey hmem
  · exact absurd hmem (by decide)
  · exact hvalue hmem

/-- The end of an iteration of `parse_fields`: what follows the value it has read. -/
def afterField (keys : List String) (value : Bytes) : Bytes → Except String (List Bytes)
  | [] => if keys = [] then .ok [value] else .error "missing fields"
  | _ :: rest =>
      if rest = [] then .error "trailing newline"
      else (parseFields keys rest).map fun values => value :: values

theorem parseFields_cons (key : String) (keys : List String) (body : Bytes) :
    parseFields (key :: keys) body =
      let line := body.takeWhile (· ≠ newline)
      let want := ascii key ++ [equalsSign]
      if line.length ≤ want.length ∨ line.take want.length ≠ want then
        .error ("expected field " ++ key)
      else afterField keys (line.drop want.length) (body.drop line.length) := by
  rw [parseFields]
  dsimp only
  split
  · rfl
  · cases body.drop (body.takeWhile (· ≠ newline)).length <;> rfl

theorem parseFields_field (hkey : newline ∉ ascii key) (hvalue : Plain value)
    (hrest : ∀ c ∈ rest.head?, c = newline) :
    parseFields (key :: keys) (field key value ++ rest) = afterField keys value rest := by
  have hlong : ¬ ((field key value).length ≤ (ascii key ++ [equalsSign]).length ∨
      (field key value).take (ascii key ++ [equalsSign]).length ≠ ascii key ++ [equalsSign]) := by
    have hlength : (ascii key ++ [equalsSign]).length < (field key value).length := by
      rw [field, @List.length_append _ _ value]
      exact Nat.lt_add_of_pos_right (length_pos_of_ne_nil hvalue.nonempty)
    have htake : (field key value).take (ascii key ++ [equalsSign]).length =
        ascii key ++ [equalsSign] := by
      rw [field, take_left]
    rw [not_or, not_not]
    exact ⟨Nat.not_le_of_lt hlength, htake⟩
  have hdrop : (field key value).drop (ascii key ++ [equalsSign]).length = value := by
    rw [field, drop_left]
  rw [parseFields_cons]
  dsimp only
  rw [takeWhile_until (newline_notMem_field hkey hvalue.line) hrest, if_neg hlong, hdrop,
    drop_left]

theorem parseFields_lines (hne : fields ≠ [])
    (h : ∀ entry ∈ fields, newline ∉ ascii entry.1 ∧ Plain entry.2) :
    parseFields (fields.map Prod.fst) (lines fields) = .ok (fields.map Prod.snd) := by
  induction fields with
  | nil => exact absurd rfl hne
  | cons entry rest ih =>
    rw [forall_mem_cons] at h
    cases rest with
    | nil =>
      have hline := @parseFields_field [] entry.2 entry.1 [] h.1.1 h.1.2 (by simp)
      rw [append_nil] at hline
      rw [lines_singleton]
      exact hline
    | cons next later =>
      have hrest := ih (cons_ne_nil next later) h.2
      have hnonempty : lines (next :: later) ≠ [] := by
        intro hnil
        rw [hnil] at hrest
        cases hrest
      rw [lines_cons_cons, map_cons, parseFields_field h.1.1 h.1.2 (by simp), afterField,
        if_neg hnonempty, hrest]
      rfl

theorem eq_field (h : line.take (ascii key ++ [equalsSign]).length = ascii key ++ [equalsSign]) :
    line = field key (line.drop (ascii key ++ [equalsSign]).length) := by
  rw [field, ← take_append_drop (ascii key ++ [equalsSign]).length line, h, drop_left]

theorem lines_of_parseFields (h : parseFields keys body = .ok values) :
    values.length = keys.length ∧ body = lines (keys.zip values) := by
  induction keys generalizing body values with
  | nil => cases h
  | cons key keys ih =>
    obtain ⟨line, rest, hnewline, hrest, rfl⟩ := exists_until newline body
    rw [parseFields_cons] at h
    dsimp only at h
    rw [takeWhile_until hnewline hrest, drop_left] at h
    split at h
    · cases h
    · case isFalse hchecks =>
      rw [not_or, not_not] at hchecks
      have hline := eq_field hchecks.2
      generalize List.drop _ line = value at h hline
      subst hline
      cases rest with
      | nil =>
        rw [afterField] at h
        split at h
        · case isTrue hkeys =>
          cases h
          subst hkeys
          refine ⟨rfl, ?_⟩
          rw [append_nil, zip_cons_cons, zip_nil_left, lines_singleton]
        · cases h
      | cons c tail =>
        cases hrest c rfl
        rw [afterField] at h
        split at h
        · cases h
        · cases hothers : parseFields keys tail with
          | error text =>
            rw [hothers] at h
            cases h
          | ok others =>
            rw [hothers] at h
            cases h
            obtain ⟨hlength, rfl⟩ := ih hothers
            refine ⟨congrArg Nat.succ hlength, ?_⟩
            cases keys with
            | nil => cases hothers
            | cons next keys =>
              obtain ⟨other, others, rfl⟩ := exists_cons_of_length_eq_add_one hlength
              exact (lines_cons_cons (key, value) (next, other) (keys.zip others)).symm

/-! ## Ports and tags -/

theorem parsePort_write (hpos : port ≠ 0) : parsePort (write port.toNat) = some port := by
  have hlt := port.toNat_lt
  have hnonzero : port.toNat ≠ 0 := by
    intro hzero
    exact hpos (UInt16.toNat_inj.mp hzero)
  have hlength : (write port.toNat).length ≤ 5 := length_write_le (by omega) (by omega)
  have hzeros := strip_eq_self_iff.mp (strip_write port.toNat)
  unfold parsePort
  rw [if_neg, if_neg hzeros, read_write, if_neg (by omega), UInt16.ofNat_toNat]
  simp only [write_ne_nil, write_all, Bool.not_true, Bool.false_eq_true, false_or, or_false]
  exact Nat.not_lt_of_le hlength

theorem parsePort_some (h : parsePort s = some port) : port ≠ 0 ∧ s = write port.toNat := by
  unfold parsePort at h
  split at h
  · cases h
  · case isFalse hshape =>
    split at h
    · cases h
    · case isFalse hzeros =>
      split at h
      · cases h
      · case isFalse hrange =>
        simp only [not_or, Bool.not_eq_true', Bool.not_eq_false] at hshape
        obtain ⟨hne, -, hdigits⟩ := hshape
        have hvalue : port.toNat = read s := by
          rw [← Option.some_inj.mp h, UInt16.toNat_ofNat']
          omega
        rw [hvalue, write_read hne hdigits, strip_eq_self_iff.mpr hzeros]
        refine ⟨?_, rfl⟩
        rintro rfl
        exact hrange (Or.inl (by rw [← hvalue]; decide))

def tagged (name : String) (body : Bytes) : Bytes :=
  ascii name ++ [colon] ++ base64urlEncode body

theorem base64urlEncode_ne_nil (h : body ≠ []) : base64urlEncode body ≠ [] := by
  intro hnil
  have hdecode := base64url_decode_encode body
  rw [hnil] at hdecode
  exact h (Option.some_inj.mp hdecode).symm

theorem decodePrefixed_tagged (hne : body ≠ []) (hshort : body.length ≤ 767) :
    decodePrefixed (tagged name body) name = .ok body := by
  have hlong := length_pos_of_ne_nil (base64urlEncode_ne_nil hne)
  have hpayload := length_base64urlEncode body
  have hprefix : ¬ ((tagged name body).length ≤ (ascii name ++ [colon]).length ∨
      (tagged name body).take (ascii name ++ [colon]).length ≠ ascii name ++ [colon]) := by
    rw [tagged, take_left, @List.length_append _ _ (base64urlEncode body), not_or, not_not]
    exact ⟨by omega, rfl⟩
  unfold decodePrefixed
  dsimp only
  rw [if_neg hprefix, tagged, drop_left, if_neg (by omega), base64url_decode_encode]
  exact if_neg hne

theorem tagged_of_decodePrefixed (h : decodePrefixed code name = .ok body) :
    code = tagged name body := by
  unfold decodePrefixed at h
  dsimp only at h
  split at h
  · split at h
    · cases h
    · cases h
  · case isFalse hprefix =>
    rw [not_or, not_not] at hprefix
    split at h
    · cases h
    · split at h
      · cases h
      · case h_2 body' hdecode =>
        split at h
        · cases h
        · cases h
          rw [tagged, base64url_encode_decode hdecode]
          nth_rewrite 1 [← hprefix.2]
          exact (take_append_drop _ code).symm

/-! ## Validated values are words -/

theorem plain_of_word (word : Word value) : Plain value :=
  ⟨word.nonempty, word.notMem rfl⟩

theorem isWordChar_of_mem_stdAlphabet (h : c ∈ stdAlphabet) : isWordChar c = true := by
  have hall : (sharedAlphabet ++ [43, 47]).all isWordChar = true := by decide +kernel
  rw [stdAlphabet_eq] at h
  exact all_eq_true.mp hall c h

theorem isWordChar_of_isAlnum (h : isAlnum c) : isWordChar c = true := by
  simp only [isAlnum, isDigit, isUpper, isLower, Bool.or_eq_true, Bool.and_eq_true,
    decide_eq_true_eq, UInt8.le_iff_toNat_le, UInt8.reduceToNat] at h
  simp only [isWordChar, Bool.and_eq_true, decide_eq_true_eq, UInt8.le_iff_toNat_le, ne_eq,
    ← UInt8.toNat_inj, UInt8.reduceToNat]
  omega

theorem isWordChar_of_isDigit (h : isDigit c) : isWordChar c = true :=
  isWordChar_of_isAlnum (by simp [isAlnum, h])

theorem isWordChar_of_isXDigit (h : isXDigit c) : isWordChar c = true := by
  apply isWordChar_of_isAlnum
  simp only [isXDigit, isDigit, Bool.or_eq_true, Bool.and_eq_true, decide_eq_true_eq,
    UInt8.le_iff_toNat_le, UInt8.reduceToNat] at h
  simp only [isAlnum, isDigit, isUpper, isLower, Bool.or_eq_true, Bool.and_eq_true,
    decide_eq_true_eq, UInt8.le_iff_toNat_le, UInt8.reduceToNat]
  omega

theorem word_of_validWgKey {key : Bytes} (h : validWgKey key) : Word key ∧ key.length = 44 := by
  unfold validWgKey at h
  split at h
  · cases h
  · case isFalse hshape =>
    rw [not_or, not_not] at hshape
    split at h
    · cases h
    · case h_2 raw hdecode =>
      refine ⟨⟨?_, ?_⟩, hshape.1⟩
      · rintro rfl
        cases hshape.1
      · intro c hc
        obtain hletter | rfl := mem_stdAlphabet_of_decode hdecode c hc
        · exact isWordChar_of_mem_stdAlphabet hletter
        · rfl

theorem wordChars_of_parseIpv4 (h : parseIpv4 s = some v) : ∀ c ∈ s, isWordChar c = true := by
  intro c hc
  obtain hdigit | rfl := parseIpv4_chars h c hc
  · exact isWordChar_of_isDigit hdigit
  · rfl

theorem word_of_validTunnelIp (h : validTunnelIp ip) : Word ip ∧ ip.length ≤ 16 := by
  obtain ⟨v, hparse, -, -⟩ := validTunnelIp_iff.mp h
  refine ⟨⟨?_, wordChars_of_parseIpv4 hparse⟩, parseIpv4_length hparse⟩
  rintro rfl
  cases hparse

theorem wordChars_of_validLabels (hvalid : validLabels h label) : ∀ c ∈ h, isWordChar c = true := by
  fun_induction validLabels h label with
  | case1 label => exact fun c hc => absurd hc not_mem_nil
  | case2 rest => cases hvalid
  | case3 label rest hlabel ih => exact forall_mem_cons.mpr ⟨rfl, ih hvalid⟩
  | case4 label c rest hdot hchar => cases hvalid
  | case5 label c rest hdot hchar hhyphen => cases hvalid
  | case6 label c rest hdot hchar hhyphen hlong => cases hvalid
  | case7 label c rest hdot hchar hhyphen hlong ih =>
    refine forall_mem_cons.mpr ⟨?_, ih hvalid⟩
    rw [Bool.not_eq_true', Bool.not_eq_false, Bool.or_eq_true, decide_eq_true_eq] at hchar
    obtain halnum | rfl := hchar
    · exact isWordChar_of_isAlnum halnum
    · rfl

theorem wordChars_of_hexRun {digits g count value : Nat}
    (h : hexRun s digits g = some (count, value, rest)) (hrest : ∀ c ∈ rest, isWordChar c = true) :
    ∀ c ∈ s, isWordChar c = true := by
  fun_induction hexRun s digits g with
  | case1 c tail digits g hc hmany => cases h
  | case2 c tail digits g hc hmany ih =>
    exact forall_mem_cons.mpr ⟨isWordChar_of_isXDigit hc, ih h⟩
  | case3 c tail digits g hc =>
    cases h
    exact hrest
  | case4 digits g => exact fun c hc => absurd hc not_mem_nil

theorem wordChars_of_parseGroups {left : Nat} (h : parseGroups left s groups = some result) :
    ∀ c ∈ s, isWordChar c = true := by
  fun_induction parseGroups left s groups with
  | case1 s groups => cases h
  | case2 left s groups hrun => cases h
  | case3 left s groups g rest hrun => cases h
  | case4 left s groups digits g hdigits hrun =>
    exact wordChars_of_hexRun hrun fun c hc => absurd hc not_mem_nil
  | case5 left s groups digits g hdigits c rest hc hrun => cases h
  | case6 left s groups digits g hdigits c hc hrun => cases h
  | case7 left s groups digits g hdigits c hc after hgap hrun => cases h
  | case8 left s groups digits g hdigits c hc hgap hrun =>
    cases not_not.mp hc
    exact wordChars_of_hexRun hrun (all_eq_true.mp rfl)
  | case9 left s groups digits g hdigits c hc after hgap hafter hrun ih =>
    cases not_not.mp hc
    apply wordChars_of_hexRun hrun
    exact forall_mem_cons.mpr ⟨rfl, forall_mem_cons.mpr ⟨rfl, ih h⟩⟩
  | case10 left s groups digits g hdigits c hc next after hnext hrun ih =>
    cases not_not.mp hc
    apply wordChars_of_hexRun hrun
    exact forall_mem_cons.mpr ⟨rfl, ih h⟩

theorem wordChars_of_parseIpv6 (h : parseIpv6 s = some a) : ∀ c ∈ s, isWordChar c = true := by
  unfold parseIpv6 at h
  split at h
  · cases h
  · split at h
    · case isTrue hgap =>
      rw [← take_append_drop 2 s, hgap, forall_mem_append]
      refine ⟨all_eq_true.mp rfl, ?_⟩
      split at h
      · case isTrue hlength =>
        rw [drop_eq_nil_of_le (Nat.le_of_eq hlength)]
        exact fun c hc => absurd hc not_mem_nil
      · obtain ⟨groups, hgroups, -⟩ := Option.bind_eq_some_iff.mp h
        exact wordChars_of_parseGroups hgroups
    · split at h
      · cases h
      · obtain ⟨groups, hgroups, -⟩ := Option.bind_eq_some_iff.mp h
        exact wordChars_of_parseGroups hgroups

theorem eq_enclosed (hfirst : host.head? = some first) (hlast : host.getLast? = some last)
    (hlength : 2 ≤ host.length) :
    host = first :: ((host.drop 1).take (host.length - 2) ++ [last]) := by
  cases host with
  | nil => cases hfirst
  | cons c tail =>
    cases hfirst
    have hne : tail ≠ [] := by
      rintro rfl
      exact absurd hlength (by simp)
    have hend : tail.getLast hne = last := by
      rw [List.getLast?_eq_some_getLast (cons_ne_nil _ _), getLast_cons hne] at hlast
      exact Option.some_inj.mp hlast
    have htake : tail.take ((first :: tail).length - 2) = tail.dropLast := by
      rw [dropLast_eq_take, length_cons]
      rfl
    rw [drop_one, tail_cons, htake, ← hend, dropLast_append_getLast]

theorem word_of_validEndpointHost (h : validEndpointHost host) : Word host ∧ host.length ≤ 255 := by
  unfold validEndpointHost at h
  split at h
  · cases h
  · case isFalse hshape =>
    rw [not_or] at hshape
    refine ⟨⟨hshape.1, ?_⟩, Nat.le_of_not_lt hshape.2⟩
    split at h
    · case isTrue hbracket =>
      split at h
      · cases h
      · case isFalse hclosed =>
        rw [not_or, not_not] at hclosed
        split at h
        · cases h
        · case h_2 a hparse =>
          rw [eq_enclosed hbracket hclosed.2 (by omega), forall_mem_cons,
            forall_mem_append]
          exact ⟨rfl, wordChars_of_parseIpv6 hparse, all_eq_true.mp rfl⟩
    · split at h
      · case h_1 v hparse => exact wordChars_of_parseIpv4 hparse
      · unfold validHostname at h
        split at h
        · cases h
        · split at h
          · cases h
          · split at h
            · cases h
            · case isFalse hlabels =>
              rw [Bool.not_eq_true', Bool.not_eq_false] at hlabels
              exact wordChars_of_validLabels hlabels

theorem plain_of_validWgKey {key : Bytes} (h : validWgKey key) : Plain key ∧ key.length = 44 :=
  (word_of_validWgKey h).imp_left plain_of_word

theorem plain_of_validTunnelIp (h : validTunnelIp ip) : Plain ip ∧ ip.length ≤ 16 :=
  (word_of_validTunnelIp h).imp_left plain_of_word

theorem plain_of_validEndpointHost (h : validEndpointHost host) :
    Plain host ∧ host.length ≤ 255 :=
  (word_of_validEndpointHost h).imp_left plain_of_word

/-! ## The descriptors -/

structure ServerDescriptor.Valid (d : ServerDescriptor) : Prop where
  key : validWgKey d.publicKey
  host : validEndpointHost d.endpointHost
  port : d.listenPort ≠ 0
  mac : validTunnelIp d.macIp
  win : validTunnelIp d.winIp
  distinct : d.macIp ≠ d.winIp

structure ClientDescriptor.Valid (d : ClientDescriptor) : Prop where
  key : validWgKey d.publicKey
  win : validTunnelIp d.winIp

theorem encodeServer_ok_iff :
    encodeServer d = .ok code ↔ d.Valid ∧ code = tagged "SCST1" (serverBody d) := by
  have htag : ascii "SCST1:" = ascii "SCST1" ++ [colon] := rfl
  unfold encodeServer
  simp only [check_ok_iff, Bool.not_eq_true', Bool.not_eq_false, Except.ok.injEq, htag]
  constructor
  · rintro ⟨hkey, hhost, hport, hmac, hwin, hdistinct, rfl⟩
    exact ⟨⟨hkey, hhost, hport, hmac, hwin, hdistinct⟩, rfl⟩
  · rintro ⟨h, rfl⟩
    exact ⟨h.key, h.host, h.port, h.mac, h.win, h.distinct, rfl⟩

theorem encodeClient_ok_iff {d : ClientDescriptor} :
    encodeClient d = .ok code ↔ d.Valid ∧ code = tagged "SCCL1" (clientBody d) := by
  have htag : ascii "SCCL1:" = ascii "SCCL1" ++ [colon] := rfl
  unfold encodeClient
  simp only [check_ok_iff, Bool.not_eq_true', Bool.not_eq_false, Except.ok.injEq, htag]
  constructor
  · rintro ⟨hkey, hwin, rfl⟩
    exact ⟨⟨hkey, hwin⟩, rfl⟩
  · rintro ⟨h, rfl⟩
    exact ⟨h.key, h.win, rfl⟩

theorem checkServer_ok_iff {key port mac : Bytes} :
    checkServer key host port mac win = .ok d ↔
      d.Valid ∧ [key, host, port, mac, win] =
        [d.publicKey, d.endpointHost, write d.listenPort.toNat, d.macIp, d.winIp] := by
  unfold checkServer
  constructor
  · intro h
    split at h
    · cases h
    · case h_2 listenPort hparse =>
      simp only [check_ok_iff, Bool.not_eq_true', Bool.not_eq_false] at h
      obtain ⟨hkey, hhost, hmac, hwin, hdistinct, hroute⟩ := h
      obtain ⟨hpos, rfl⟩ := parsePort_some hparse
      rw [routeAllowed_hostRoute hmac] at hroute
      cases hroute
      exact ⟨⟨hkey, hhost, hpos, hmac, hwin, hdistinct⟩, rfl⟩
  · rintro ⟨h, hfields⟩
    cases hfields
    rw [parsePort_write h.port]
    simp only [check_ok_iff, Bool.not_eq_true', Bool.not_eq_false]
    refine ⟨h.key, h.host, h.mac, h.win, h.distinct, ?_⟩
    rw [routeAllowed_hostRoute h.mac]
    rfl

theorem checkClient_ok_iff {key : Bytes} {d : ClientDescriptor} :
    checkClient key win = .ok d ↔ d.Valid ∧ [key, win] = [d.publicKey, d.winIp] := by
  unfold checkClient
  simp only [check_ok_iff, Bool.not_eq_true', Bool.not_eq_false]
  constructor
  · rintro ⟨hkey, hwin, hroute⟩
    rw [routeAllowed_hostRoute hwin] at hroute
    cases hroute
    exact ⟨⟨hkey, hwin⟩, rfl⟩
  · rintro ⟨h, hfields⟩
    cases hfields
    refine ⟨h.key, h.win, ?_⟩
    rw [routeAllowed_hostRoute h.win]
    rfl

def codeFields (name : String) (keys : List String) (code : Bytes) : Except String (List Bytes) :=
  (decodePrefixed code name).bind (parseFields keys)

theorem codeFields_tagged (hne : fields ≠ [])
    (hplain : ∀ entry ∈ fields, newline ∉ ascii entry.1 ∧ Plain entry.2)
    (hshort : (lines fields).length ≤ 767) :
    codeFields name (fields.map Prod.fst) (tagged name (lines fields)) =
      .ok (fields.map Prod.snd) := by
  have hfields := parseFields_lines hne hplain
  have hbody : lines fields ≠ [] := by
    intro hnil
    rw [hnil] at hfields
    cases fields with
    | nil => exact hne rfl
    | cons entry rest => cases hfields
  rw [codeFields, bind_ok_iff]
  exact ⟨lines fields, decodePrefixed_tagged hbody hshort, hfields⟩

theorem tagged_of_codeFields (h : codeFields name keys code = .ok values) :
    values.length = keys.length ∧ code = tagged name (lines (keys.zip values)) := by
  obtain ⟨body, hbody, hvalues⟩ := bind_ok_iff.mp h
  obtain ⟨hlength, rfl⟩ := lines_of_parseFields hvalues
  exact ⟨hlength, tagged_of_decodePrefixed hbody⟩

theorem readServer_eq (code : Bytes) :
    readServer code = (codeFields "SCST1" ["k", "e", "p", "s", "c"] code).bind fun fields =>
      checkServer (fields.getD 0 []) (fields.getD 1 []) (fields.getD 2 []) (fields.getD 3 [])
        (fields.getD 4 []) := by
  unfold readServer codeFields
  cases decodePrefixed code "SCST1" with
  | error text => rfl
  | ok body => rfl

theorem readClient_eq (code : Bytes) :
    readClient code = (codeFields "SCCL1" ["k", "c"] code).bind fun fields =>
      checkClient (fields.getD 0 []) (fields.getD 1 []) := by
  unfold readClient codeFields
  cases decodePrefixed code "SCCL1" with
  | error text => rfl
  | ok body => rfl

def ServerDescriptor.fields (d : ServerDescriptor) : List (String × Bytes) :=
  [("k", d.publicKey), ("e", d.endpointHost), ("p", write d.listenPort.toNat), ("s", d.macIp),
    ("c", d.winIp)]

def ClientDescriptor.fields (d : ClientDescriptor) : List (String × Bytes) :=
  [("k", d.publicKey), ("c", d.winIp)]

theorem serverBody_eq (d : ServerDescriptor) : serverBody d = lines d.fields := by
  simp [serverBody, ServerDescriptor.fields, lines_cons_cons, lines_singleton]

theorem clientBody_eq (d : ClientDescriptor) : clientBody d = lines d.fields := by
  simp [clientBody, ClientDescriptor.fields, lines_cons_cons, lines_singleton]

theorem length_field (hkey : (ascii key).length = 1) (value : Bytes) :
    (field key value).length = value.length + 2 := by
  rw [field, length_append, length_append, hkey, length_singleton]
  omega

theorem word_write (value : Nat) : Word (write value) :=
  ⟨write_ne_nil value, fun c hc =>
    isWordChar_of_isDigit (all_eq_true.mp (write_all value) c hc)⟩

theorem plain_write (value : Nat) : Plain (write value) := plain_of_word (word_write value)

theorem codeFields_server (h : d.Valid) :
    codeFields "SCST1" ["k", "e", "p", "s", "c"] (tagged "SCST1" (serverBody d)) =
      .ok [d.publicKey, d.endpointHost, write d.listenPort.toNat, d.macIp, d.winIp] := by
  obtain ⟨hkey, hkeyLength⟩ := plain_of_validWgKey h.key
  obtain ⟨hhost, hhostLength⟩ := plain_of_validEndpointHost h.host
  obtain ⟨hmac, hmacLength⟩ := plain_of_validTunnelIp h.mac
  obtain ⟨hwin, hwinLength⟩ := plain_of_validTunnelIp h.win
  have hport := d.listenPort.toNat_lt
  have hportLength : (write d.listenPort.toNat).length ≤ 5 := length_write_le (by omega) (by omega)
  have hshort : (serverBody d).length ≤ 767 := by
    simp (disch := decide) only [serverBody, length_append, length_singleton,
      length_field]
    omega
  rw [serverBody_eq] at hshort ⊢
  apply codeFields_tagged (cons_ne_nil _ _) _ hshort
  simp only [forall_mem_cons]
  exact ⟨⟨by decide, hkey⟩, ⟨by decide, hhost⟩, ⟨by decide, plain_write _⟩, ⟨by decide, hmac⟩,
    ⟨by decide, hwin⟩, by simp⟩

theorem codeFields_client {d : ClientDescriptor} (h : d.Valid) :
    codeFields "SCCL1" ["k", "c"] (tagged "SCCL1" (clientBody d)) =
      .ok [d.publicKey, d.winIp] := by
  obtain ⟨hkey, hkeyLength⟩ := plain_of_validWgKey h.key
  obtain ⟨hwin, hwinLength⟩ := plain_of_validTunnelIp h.win
  have hshort : (clientBody d).length ≤ 767 := by
    simp (disch := decide) only [clientBody, length_append, length_singleton,
      length_field]
    omega
  rw [clientBody_eq] at hshort ⊢
  apply codeFields_tagged (cons_ne_nil _ _) _ hshort
  simp only [forall_mem_cons]
  exact ⟨⟨by decide, hkey⟩, ⟨by decide, hwin⟩, by simp⟩

theorem readServer_ok_iff :
    readServer code = .ok d ↔ d.Valid ∧ code = tagged "SCST1" (serverBody d) := by
  rw [readServer_eq, bind_ok_iff]
  constructor
  · rintro ⟨values, hvalues, hcheck⟩
    obtain ⟨hlength, rfl⟩ := tagged_of_codeFields hvalues
    clear hvalues
    match values, hlength with
    | [key, host, port, mac, win], _ =>
      simp only [getD_cons_zero, getD_cons_succ] at hcheck
      obtain ⟨hvalid, hfields⟩ := checkServer_ok_iff.mp hcheck
      refine ⟨hvalid, ?_⟩
      rw [hfields, serverBody_eq]
      rfl
  · rintro ⟨h, rfl⟩
    exact ⟨_, codeFields_server h, checkServer_ok_iff.mpr ⟨h, rfl⟩⟩

theorem readClient_ok_iff {d : ClientDescriptor} :
    readClient code = .ok d ↔ d.Valid ∧ code = tagged "SCCL1" (clientBody d) := by
  rw [readClient_eq, bind_ok_iff]
  constructor
  · rintro ⟨values, hvalues, hcheck⟩
    obtain ⟨hlength, rfl⟩ := tagged_of_codeFields hvalues
    clear hvalues
    match values, hlength with
    | [key, win], _ =>
      simp only [getD_cons_zero, getD_cons_succ] at hcheck
      obtain ⟨hvalid, hfields⟩ := checkClient_ok_iff.mp hcheck
      refine ⟨hvalid, ?_⟩
      rw [hfields, clientBody_eq]
      rfl
  · rintro ⟨h, rfl⟩
    exact ⟨_, codeFields_client h, checkClient_ok_iff.mpr ⟨h, rfl⟩⟩

theorem readServer_iff_encodeServer :
    readServer code = .ok d ↔ encodeServer d = .ok code :=
  readServer_ok_iff.trans encodeServer_ok_iff.symm

theorem readClient_iff_encodeClient {d : ClientDescriptor} :
    readClient code = .ok d ↔ encodeClient d = .ok code :=
  readClient_ok_iff.trans encodeClient_ok_iff.symm

/-! ## The bijection -/

section

variable {α : Type} {result : Except String α} {out : α}

theorem assign_accepted (h : (assign result out).accepted = true) :
    result = .ok (assign result out).out := by
  cases result with
  | error text => cases h
  | ok value => rfl

theorem assign_rejected (h : (assign result out).accepted = false) :
    (assign result out).out = out := by
  cases result with
  | error text => rfl
  | ok value => cases h

end

/-- Accepted codes and valid descriptors correspond one to one, and a rejected code leaves
the descriptor it should have filled as it was. -/
theorem descriptors_correspond :
    (∀ d code out, encodeServer d = .ok code → decodeServer code out = ⟨true, d, ""⟩) ∧
    (∀ code out, (decodeServer code out).accepted = true →
      encodeServer (decodeServer code out).out = .ok code) ∧
    (∀ code out, (decodeServer code out).accepted = false → (decodeServer code out).out = out) ∧
    (∀ d code out, encodeClient d = .ok code → decodeClient code out = ⟨true, d, ""⟩) ∧
    (∀ code out, (decodeClient code out).accepted = true →
      encodeClient (decodeClient code out).out = .ok code) ∧
    (∀ code out, (decodeClient code out).accepted = false →
      (decodeClient code out).out = out) := by
  refine ⟨?_, ?_, ?_, ?_, ?_, ?_⟩
  · intro d code out h
    rw [decodeServer, readServer_iff_encodeServer.mpr h]
    rfl
  · intro code out h
    exact readServer_iff_encodeServer.mp (assign_accepted h)
  · intro code out h
    exact assign_rejected h
  · intro d code out h
    rw [decodeClient, readClient_iff_encodeClient.mpr h]
    rfl
  · intro code out h
    exact readClient_iff_encodeClient.mp (assign_accepted h)
  · intro code out h
    exact assign_rejected h

def sampleServer : ServerDescriptor where
  publicKey := ascii "AAECAwQFBgcICQoLDA0ODxAREhMUFRYXGBkaGxwdHh8="
  endpointHost := ascii "[2001:db8::7]"

def sampleClient : ClientDescriptor := ⟨sampleServer.publicKey, sampleServer.winIp⟩

def emptyServer : ServerDescriptor := ⟨[], [], 0, [], []⟩

def emptyClient : ClientDescriptor := ⟨[], []⟩

theorem sampleServer_valid : sampleServer.Valid where
  key := by
    rw [validWgKey, stdAlphabet_eq, show sampleServer.publicKey = _ from ascii_ofList _]
    decide +kernel
  host := by decide +kernel
  port := by decide
  mac := by decide +kernel
  win := by decide +kernel
  distinct := by decide

theorem sampleClient_valid : sampleClient.Valid :=
  ⟨sampleServer_valid.key, sampleServer_valid.win⟩

theorem descriptors_correspond_sample :
    decodeServer (tagged "SCST1" (serverBody sampleServer)) emptyServer =
      ⟨true, sampleServer, ""⟩ ∧
    encodeServer (decodeServer (tagged "SCST1" (serverBody sampleServer)) emptyServer).out =
      .ok (tagged "SCST1" (serverBody sampleServer)) ∧
    (decodeServer (ascii "SCST2:AAAA") sampleServer).out = sampleServer ∧
    decodeClient (tagged "SCCL1" (clientBody sampleClient)) emptyClient =
      ⟨true, sampleClient, ""⟩ ∧
    encodeClient (decodeClient (tagged "SCCL1" (clientBody sampleClient)) emptyClient).out =
      .ok (tagged "SCCL1" (clientBody sampleClient)) ∧
    (decodeClient (ascii "SCCL2:AAAA") sampleClient).out = sampleClient := by
  obtain ⟨hencode, hdecode, hrejected, hencode', hdecode', hrejected'⟩ := descriptors_correspond
  have hserver := hencode _ _ emptyServer (encodeServer_ok_iff.mpr ⟨sampleServer_valid, rfl⟩)
  have hclient := hencode' _ _ emptyClient (encodeClient_ok_iff.mpr ⟨sampleClient_valid, rfl⟩)
  refine ⟨hserver, hdecode _ _ ?_, hrejected _ _ rfl, hclient, hdecode' _ _ ?_, hrejected' _ _ rfl⟩
  · rw [hserver]
  · rw [hclient]

end Scshr.Tunnel
